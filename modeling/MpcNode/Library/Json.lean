import Mathlib.Data.List.TakeDrop
import Mathlib.Tactic.IntervalCases
import Mathlib.Tactic.Common

/-!
# Compact JSON documents and their text

Documents carry what a decoder of naturals, strings and sequences can tell
apart; `other` stands for null and for the numbers no such decoder accepts.
The writer emits no white space and escapes quotes, backslashes and control
characters. The reader gives every written document back.
-/

set_option autoImplicit false

namespace MpcNode.Json

inductive Value where
  | other
  | bool (b : Bool)
  | nat (n : ℕ)
  | str (s : String)
  | arr (items : List Value)
  | obj (fields : List (String × Value))

def hexDigit (n : ℕ) : Char := Nat.digitChar n

def escapeControl : ℕ → List Char
  | 8 => ['b']
  | 9 => ['t']
  | 10 => ['n']
  | 12 => ['f']
  | 13 => ['r']
  | n => ['u','0','0',hexDigit (n/16),hexDigit (n%16)]

def escape (c : Char) : List Char :=
  if c = '"' then ['\\','"']
  else if c = '\\' then ['\\','\\']
  else if c.toNat < 32 then '\\' :: escapeControl c.toNat
  else [c]

def writeString (s : String) : List Char := '"' :: (s.toList.flatMap escape ++ ['"'])

mutual
def write : Value → List Char
  | .other => ['n','u','l','l']
  | .bool true => ['t','r','u','e']
  | .bool false => ['f','a','l','s','e']
  | .nat n => Nat.toDigits 10 n
  | .str s => writeString s
  | .arr [] => ['[',']']
  | .arr (j::js) => '[' :: (write j ++ writeItems js)
  | .obj [] => ['{','}']
  | .obj (f::fs) => '{' :: (writeField f ++ writeFields fs)

def writeItems : List Value → List Char
  | [] => [']']
  | j::js => ',' :: (write j ++ writeItems js)

def writeField : String × Value → List Char
  | (name,j) => writeString name ++ ':' :: write j

def writeFields : List (String × Value) → List Char
  | [] => ['}']
  | f::fs => ',' :: (writeField f ++ writeFields fs)
end

def hexValue (c : Char) : ℕ :=
  if c.isDigit then c.toNat - '0'.toNat else c.toNat - 'a'.toNat+10

def readString : List Char → Option (List Char × List Char)
  | '"' :: rest => some ([],rest)
  | '\\' :: '"' :: rest => (readString rest).map (fun p => ('"' :: p.1,p.2))
  | '\\' :: '\\' :: rest => (readString rest).map (fun p => ('\\' :: p.1,p.2))
  | '\\' :: 'b' :: rest => (readString rest).map (fun p => (Char.ofNat 8::p.1,p.2))
  | '\\' :: 't' :: rest => (readString rest).map (fun p => (Char.ofNat 9::p.1,p.2))
  | '\\' :: 'n' :: rest => (readString rest).map (fun p => (Char.ofNat 10::p.1,p.2))
  | '\\' :: 'f' :: rest => (readString rest).map (fun p => (Char.ofNat 12::p.1,p.2))
  | '\\' :: 'r' :: rest => (readString rest).map (fun p => (Char.ofNat 13::p.1,p.2))
  | '\\' :: 'u' :: '0' :: '0' :: a::b::rest =>
    (readString rest).map (fun p => (Char.ofNat (16*hexValue a+hexValue b)::p.1,p.2))
  | c::rest =>
    if c = '\\' ∨ c.toNat < 32 then none else (readString rest).map (fun p => (c::p.1,p.2))
  | [] => none

/-- The items after the first, up to and including the closing bracket. -/
def readTail {β : Type} (close : Char) (item : List Char → Option (β × List Char)) :
    ℕ → List Char → Option (List β × List Char)
  | 0, _ => none
  | _, [] => none
  | k+1, c::rest =>
    if c = close then some ([],rest)
    else if c = ',' then
      (item rest).bind (fun p => (readTail close item k p.2).map (fun q => (p.1::q.1,q.2)))
    else none

def readSeq {β : Type} (close : Char) (item : List Char → Option (β × List Char)) (k : ℕ) :
    List Char → Option (List β × List Char)
  | [] => none
  | c::rest =>
    if c = close then some ([],rest)
    else (item (c::rest)).bind (fun p => (readTail close item k p.2).map (fun q => (p.1::q.1,q.2)))

def readField (value : List Char → Option (Value × List Char)) :
    List Char → Option ((String × Value) × List Char)
  | '"' :: rest => (readString rest).bind (fun p => match p.2 with
    | ':' :: rest' => (value rest').map (fun q => ((String.ofList p.1,q.1),q.2))
    | _ => none)
  | _ => none

def readNat (text : List Char) : Option (Value × List Char) :=
  match text.span Char.isDigit with
  | ([],_) => none
  | (ds,rest) => some (.nat (Nat.ofDigitChars 10 ds 0),rest)

def readValue : ℕ → List Char → Option (Value × List Char)
  | 0, _ => none
  | _+1, 'n' :: 'u' :: 'l' :: 'l' :: rest => some (.other,rest)
  | _+1, 't' :: 'r' :: 'u' :: 'e' :: rest => some (.bool true,rest)
  | _+1, 'f' :: 'a' :: 'l' :: 's' :: 'e' :: rest => some (.bool false,rest)
  | _+1, '"' :: rest => (readString rest).map (fun p => (.str (String.ofList p.1),p.2))
  | k+1, '[' :: rest => (readSeq ']' (readValue k) k rest).map (fun p => (.arr p.1,p.2))
  | k+1, '{' :: rest => (readSeq '}' (readField (readValue k)) k rest).map (fun p => (.obj p.1,p.2))
  | _+1, text => readNat text

def read (text : List Char) : Option Value :=
  match readValue text.length text with
  | some (j,[]) => some j
  | _ => none

/-- What follows a written value never continues a number. -/
def Stops (rest : List Char) : Prop := ∀ c ∈ rest.head?, c.isDigit = false

theorem readString_escape (c : Char) (rest : List Char) :
    readString (escape c ++ rest) = (readString rest).map (fun p => (c::p.1,p.2)) := by
  by_cases hq : c = '"'
  · subst hq; rfl
  by_cases hb : c = '\\'
  · subst hb; rfl
  by_cases hc : c.toNat < 32
  · obtain ⟨n,hn,rfl⟩ : ∃ n < 32, Char.ofNat n = c := ⟨c.toNat,hc,Char.ofNat_toNat c⟩
    interval_cases n <;> rfl
  · simp only [escape, hq, hb, hc, if_false, List.singleton_append]
    rw [readString.eq_def]
    split <;> simp_all

theorem readString_write (cs rest : List Char) :
    readString (cs.flatMap escape ++ '"' :: rest) = some (cs,rest) := by
  induction cs with
  | nil => rfl
  | cons c cs ih =>
    rw [List.flatMap_cons, List.append_assoc, readString_escape, ih, Option.map_some]

theorem span_digits {ds rest : List Char} (hd : ∀ c ∈ ds, c.isDigit = true) (hr : Stops rest) :
    (ds++rest).span Char.isDigit = (ds,rest) := by
  rw [List.span_eq_takeWhile_dropWhile, List.takeWhile_append_of_pos hd,
    List.dropWhile_append_of_pos hd]
  cases rest with
  | nil => simp
  | cons c rest => simp [hr c (by simp)]

theorem readNat_write (n : ℕ) {rest : List Char} (hr : Stops rest) :
    readNat (Nat.toDigits 10 n ++ rest) = some (.nat n,rest) := by
  have hd : ∀ c ∈ Nat.toDigits 10 n, c.isDigit = true :=
    fun c hc => Nat.isDigit_of_mem_toDigits (by decide) (by decide) hc
  rw [readNat, span_digits hd hr]
  have hn : Nat.toDigits 10 n ≠ [] := Nat.toDigits_ne_nil
  have hv := Nat.ofDigitChars_ten_toDigits (n := n)
  cases h : Nat.toDigits 10 n with
  | nil => exact absurd h hn
  | cons d ds => rw [h] at hv; simp only [hv]

theorem digits_head (n : ℕ) : ∃ d ds, Nat.toDigits 10 n = d::ds ∧ d.isDigit = true := by
  cases h : Nat.toDigits 10 n with
  | nil => exact absurd h Nat.toDigits_ne_nil
  | cons d ds =>
    have hm : d ∈ Nat.toDigits 10 n := by rw [h]; exact List.mem_cons_self
    exact ⟨d,ds,rfl,Nat.isDigit_of_mem_toDigits (by decide) (by decide) hm⟩

theorem readValue_digit (k : ℕ) {d : Char} (ds : List Char) (hd : d.isDigit = true) :
    readValue (k+1) (d::ds) = readNat (d::ds) := by
  rw [readValue.eq_def]
  split <;> simp_all

theorem write_head (j : Value) : ∃ c text, write j = c::text ∧ c ≠ ']' := by
  cases j with
  | other => exact ⟨_,_,rfl,by decide⟩
  | bool b => cases b <;> exact ⟨_,_,rfl,by decide⟩
  | nat n =>
    obtain ⟨d,ds,h,hd⟩ := digits_head n
    exact ⟨d,ds,by rw [write, h],by rintro rfl; revert hd; decide⟩
  | str s => exact ⟨_,_,rfl,by decide⟩
  | arr items => cases items <;> exact ⟨_,_,rfl,by decide⟩
  | obj fields => cases fields <;> exact ⟨_,_,rfl,by decide⟩

theorem readSeq_open {β : Type} {close c : Char} (hc : c ≠ close)
    (item : List Char → Option (β × List Char)) (k : ℕ) (text : List Char) :
    readSeq close item k (c::text) = (item (c::text)).bind (fun p =>
      (readTail close item k p.2).map (fun q => (p.1::q.1,q.2))) := by
  simp [readSeq, hc]

theorem readTail_comma {β : Type} {close : Char} (hc : ',' ≠ close)
    (item : List Char → Option (β × List Char)) (k : ℕ) (text : List Char) :
    readTail close item (k+1) (',' :: text) =
      (item text).bind (fun p => (readTail close item k p.2).map (fun q => (p.1::q.1,q.2))) := by
  simp [readTail, hc]

theorem writeItems_stops (js : List Value) (rest : List Char) : Stops (writeItems js ++ rest) := by
  cases js <;> simp [writeItems, Stops]

theorem writeFields_stops (fs : List (String × Value)) (rest : List Char) :
    Stops (writeFields fs ++ rest) := by
  cases fs <;> simp [writeFields, Stops]

theorem readField_write {value : List Char → Option (Value × List Char)} (name : String)
    {j : Value} {rest : List Char} (h : value (write j ++ rest) = some (j,rest)) :
    readField value (writeField (name,j) ++ rest) = some ((name,j),rest) := by
  simp [writeField, writeString, readField, readString_write, h]

mutual
theorem readValue_write : ∀ (j : Value) (k : ℕ) (rest : List Char), (write j).length ≤ k →
    Stops rest → readValue k (write j ++ rest) = some (j,rest)
  | .other, k+1, rest, _, _ => by simp [write, readValue]
  | .bool true, k+1, rest, _, _ => by simp [write, readValue]
  | .bool false, k+1, rest, _, _ => by simp [write, readValue]
  | .nat n, 0, rest, hk, _ => by
    obtain ⟨d,ds,h,-⟩ := digits_head n
    simp [write, h] at hk
  | .nat n, k+1, rest, _, hr => by
    obtain ⟨d,ds,h,hd⟩ := digits_head n
    have hv := readNat_write n hr
    rw [h, List.cons_append] at hv
    rw [write, h, List.cons_append, readValue_digit k _ hd, hv]
  | .str s, k+1, rest, _, _ => by simp [write, writeString, readValue, readString_write]
  | .arr [], k+1, rest, _, _ => by simp [write, readValue, readSeq]
  | .arr (j::js), k+1, rest, hk, _ => by
    simp only [write, List.length_cons, List.length_append] at hk
    have hj := readValue_write j k (writeItems js ++ rest) (by omega) (writeItems_stops js rest)
    have hjs := readTail_write js k k rest (by omega) (by omega)
    obtain ⟨c,text,h,hc⟩ := write_head j
    simp only [write, List.cons_append, List.append_assoc, readValue]
    rw [h, List.cons_append] at hj ⊢
    rw [readSeq_open hc, hj, Option.bind_some, hjs]
    rfl
  | .obj [], k+1, rest, _, _ => by simp [write, readValue, readSeq]
  | .obj ((name,j)::fs), k+1, rest, hk, _ => by
    simp only [write, writeField, List.length_cons, List.length_append] at hk
    have hj := readField_write name
      (readValue_write j k (writeFields fs ++ rest) (by omega) (writeFields_stops fs rest))
    have hfs := readFields_write fs k k rest (by omega) (by omega)
    have hopen : writeField (name,j) ++ (writeFields fs ++ rest) =
        '"' :: ((writeField (name,j)).tail ++ (writeFields fs ++ rest)) := rfl
    simp only [write, List.cons_append, List.append_assoc, readValue]
    rw [hopen, readSeq_open (by decide), ← hopen, hj, Option.bind_some, hfs]
    rfl

theorem readTail_write : ∀ (js : List Value) (k m : ℕ) (rest : List Char),
    (writeItems js).length ≤ k → (writeItems js).length ≤ m →
    readTail ']' (readValue m) k (writeItems js ++ rest) = some (js,rest)
  | [], k+1, m, rest, _, _ => by simp [writeItems, readTail]
  | j::js, k+1, m, rest, hk, hm => by
    simp only [writeItems, List.length_cons, List.length_append] at hk hm
    have hj := readValue_write j m (writeItems js ++ rest) (by omega) (writeItems_stops js rest)
    have hjs := readTail_write js k m rest (by omega) (by omega)
    simp only [writeItems, List.cons_append, List.append_assoc]
    rw [readTail_comma (by decide), hj, Option.bind_some, hjs]
    rfl

theorem readFields_write : ∀ (fs : List (String × Value)) (k m : ℕ) (rest : List Char),
    (writeFields fs).length ≤ k → (writeFields fs).length ≤ m →
    readTail '}' (readField (readValue m)) k (writeFields fs ++ rest) = some (fs,rest)
  | [], k+1, m, rest, _, _ => by simp [writeFields, readTail]
  | (name,j)::fs, k+1, m, rest, hk, hm => by
    simp only [writeFields, writeField, List.length_cons, List.length_append] at hk hm
    have hj := readField_write name
      (readValue_write j m (writeFields fs ++ rest) (by omega) (writeFields_stops fs rest))
    have hfs := readFields_write fs k m rest (by omega) (by omega)
    simp only [writeFields, List.cons_append, List.append_assoc]
    rw [readTail_comma (by decide), hj, Option.bind_some, hfs]
    rfl
end

/-- Every written document is read back. -/
theorem read_write (j : Value) : read (write j) = some j := by
  have h := readValue_write j (write j).length [] (Nat.le_refl _) (by simp [Stops])
  rw [List.append_nil] at h
  rw [read, h]

end MpcNode.Json
