import MpcNode.Library.Numerals

/-!
# Concise binary documents

Documents of naturals, truth values, byte strings, texts, arrays and maps
with text keys, in the definite-length binary form: an initial byte with a
major type and a count, the count's own bytes if it is large, and the items.
A count no machine has is written in unary behind a reserved initial byte, so
that every document has a written form, and the reader gives it back.
-/

set_option autoImplicit false

namespace MpcNode.Cbor
open MpcNode.Numerals

inductive Value where
  | other
  | bool (b : Bool)
  | nat (n : ℕ)
  | bytes (bs : List UInt8)
  | text (s : String)
  | arr (items : List Value)
  | map (fields : List (String × Value))

/-- The initial byte of a major type and additional information. -/
def initial (major info : ℕ) : UInt8 := UInt8.ofNat (32*major+info)

def unary (n : ℕ) : List UInt8 := List.replicate n 1 ++ [0]

def head (major n : ℕ) : List UInt8 :=
  if n < 24 then [initial major n]
  else if n < 256^1 then initial major 24 :: (toLE 1 n).reverse
  else if n < 256^2 then initial major 25 :: (toLE 2 n).reverse
  else if n < 256^4 then initial major 26 :: (toLE 4 n).reverse
  else if n < 256^8 then initial major 27 :: (toLE 8 n).reverse
  else initial major 28 :: unary n

mutual
def write : Value → List UInt8
  | .other => head 7 22
  | .bool false => head 7 20
  | .bool true => head 7 21
  | .nat n => head 0 n
  | .bytes bs => head 2 bs.length ++ bs
  | .text s => head 3 (toUtf8 s).length ++ toUtf8 s
  | .arr items => head 4 items.length ++ writeItems items
  | .map fields => head 5 fields.length ++ writeFields fields

def writeItems : List Value → List UInt8
  | [] => []
  | j::js => write j ++ writeItems js

def writeFields : List (String × Value) → List UInt8
  | [] => []
  | (name,j)::fs => head 3 (toUtf8 name).length ++ (toUtf8 name ++ (write j ++ writeFields fs))
end

def takeBytes (n : ℕ) (text : List UInt8) : Option (List UInt8 × List UInt8) :=
  if n ≤ text.length then some (text.take n,text.drop n) else none

def readUnary : List UInt8 → Option (ℕ × List UInt8)
  | [] => none
  | b::rest => if b = 0 then some (0,rest) else (readUnary rest).map (fun p => (p.1+1,p.2))

/-- The count that additional information announces. -/
def readCount (info : ℕ) (text : List UInt8) : Option (ℕ × List UInt8) :=
  let wide (k : ℕ) := (takeBytes k text).map (fun p => (ofLE p.1.reverse,p.2))
  if info < 24 then some (info,text)
  else match info with
    | 24 => wide 1
    | 25 => wide 2
    | 26 => wide 4
    | 27 => wide 8
    | 28 => readUnary text
    | _ => none

def readHead : List UInt8 → Option ((ℕ × ℕ) × List UInt8)
  | [] => none
  | b::rest => (readCount (b.toNat%32) rest).map (fun p => ((b.toNat/32,p.1),p.2))

def readText (text : List UInt8) : Option (String × List UInt8) :=
  (readHead text).bind (fun h =>
    if h.1.1 = 3 then (takeBytes h.1.2 h.2).bind (fun p => (ofUtf8 p.1).map (fun s => (s,p.2)))
    else none)

def readMany {β : Type} (item : List UInt8 → Option (β × List UInt8)) :
    ℕ → List UInt8 → Option (List β × List UInt8)
  | 0, text => some ([],text)
  | n+1, text =>
    (item text).bind (fun p => (readMany item n p.2).map (fun q => (p.1::q.1,q.2)))

def readField (value : List UInt8 → Option (Value × List UInt8)) (text : List UInt8) :
    Option ((String × Value) × List UInt8) :=
  (readText text).bind (fun p => (value p.2).map (fun q => ((p.1,q.1),q.2)))

def readSimple : ℕ → Option Value
  | 20 => some (.bool false)
  | 21 => some (.bool true)
  | 22 => some .other
  | _ => none

def readValue : ℕ → List UInt8 → Option (Value × List UInt8)
  | 0, _ => none
  | k+1, text => (readHead text).bind (fun h => match h.1.1 with
    | 0 => some (.nat h.1.2,h.2)
    | 2 => (takeBytes h.1.2 h.2).map (fun p => (.bytes p.1,p.2))
    | 3 => (readText text).map (fun p => (.text p.1,p.2))
    | 4 => (readMany (readValue k) h.1.2 h.2).map (fun p => (.arr p.1,p.2))
    | 5 => (readMany (readField (readValue k)) h.1.2 h.2).map (fun p => (.map p.1,p.2))
    | 7 => (readSimple h.1.2).map (fun j => (j,h.2))
    | _ => none)

def read (text : List UInt8) : Option Value :=
  match readValue text.length text with
  | some (j,[]) => some j
  | _ => none

theorem takeBytes_append {n : ℕ} {bs : List UInt8} (hl : bs.length = n) (rest : List UInt8) :
    takeBytes n (bs++rest) = some (bs,rest) := by
  subst hl
  simp [takeBytes]

theorem readUnary_unary (n : ℕ) (rest : List UInt8) :
    readUnary (unary n ++ rest) = some (n,rest) := by
  induction n with
  | zero => rfl
  | succ n ih =>
    have hs : unary (n+1) = 1::unary n := rfl
    rw [hs, List.cons_append, readUnary, if_neg (by decide), ih, Option.map_some]

theorem wide_written {k n : ℕ} (hn : n < 256^k) (rest : List UInt8) :
    (takeBytes k ((toLE k n).reverse ++ rest)).map (fun p => (ofLE p.1.reverse,p.2)) =
      some (n,rest) := by
  rw [takeBytes_append (by simp), Option.map_some, List.reverse_reverse, ofLE_toLE k n hn]

theorem readHead_initial {major info : ℕ} (hm : major < 8) (hi : info < 32) (text : List UInt8) :
    readHead (initial major info::text) =
      (readCount info text).map (fun p => ((major,p.1),p.2)) := by
  have hb : (initial major info).toNat = 32*major+info := by
    rw [initial, UInt8.toNat_ofNat', Nat.mod_eq_of_lt (by omega)]
  rw [readHead, hb]
  have h1 : (32*major+info)%32 = info := by omega
  have h2 : (32*major+info)/32 = major := by omega
  rw [h1, h2]

theorem readHead_head {major : ℕ} (hm : major < 8) (n : ℕ) (rest : List UInt8) :
    readHead (head major n ++ rest) = some ((major,n),rest) := by
  unfold head
  split_ifs with h0 h1 h2 h4 h8
  · have hc : readCount n rest = some (n,rest) := by
      unfold readCount
      rw [if_pos h0]
    rw [List.cons_append, readHead_initial hm (by omega), List.nil_append, hc, Option.map_some]
  · rw [List.cons_append, readHead_initial hm (by omega)]
    simp [readCount, wide_written h1]
  · rw [List.cons_append, readHead_initial hm (by omega)]
    simp [readCount, wide_written h2]
  · rw [List.cons_append, readHead_initial hm (by omega)]
    simp [readCount, wide_written h4]
  · rw [List.cons_append, readHead_initial hm (by omega)]
    simp [readCount, wide_written h8]
  · rw [List.cons_append, readHead_initial hm (by omega)]
    simp [readCount, readUnary_unary]

theorem head_length_pos (major n : ℕ) : 0 < (head major n).length := by
  unfold head
  split_ifs <;> simp

theorem write_head (j : Value) : ∃ major n body, write j = head major n ++ body := by
  cases j with
  | other => exact ⟨7,22,[],by rw [write, List.append_nil]⟩
  | bool b =>
    cases b with
    | false => exact ⟨7,20,[],by rw [write, List.append_nil]⟩
    | true => exact ⟨7,21,[],by rw [write, List.append_nil]⟩
  | nat n => exact ⟨0,n,[],by rw [write, List.append_nil]⟩
  | bytes bs => exact ⟨_,_,_,by rw [write]⟩
  | text s => exact ⟨_,_,_,by rw [write]⟩
  | arr items => exact ⟨_,_,_,by rw [write]⟩
  | map fields => exact ⟨_,_,_,by rw [write]⟩

theorem readText_written (s : String) (rest : List UInt8) :
    readText (head 3 (toUtf8 s).length ++ (toUtf8 s ++ rest)) = some (s,rest) := by
  rw [readText, readHead_head (by decide), Option.bind_some, if_pos rfl, takeBytes_append rfl,
    Option.bind_some, ofUtf8_toUtf8, Option.map_some]

mutual
theorem readValue_write : ∀ (j : Value) (k : ℕ) (rest : List UInt8), (write j).length ≤ k →
    readValue k (write j ++ rest) = some (j,rest)
  | j, 0, rest, hk => by
    obtain ⟨major,n,body,h⟩ := write_head j
    have hp := head_length_pos major n
    rw [h, List.length_append] at hk
    omega
  | .other, k+1, rest, _ => by
    rw [write, readValue, readHead_head (by decide), Option.bind_some]
    rfl
  | .bool false, k+1, rest, _ => by
    rw [write, readValue, readHead_head (by decide), Option.bind_some]
    rfl
  | .bool true, k+1, rest, _ => by
    rw [write, readValue, readHead_head (by decide), Option.bind_some]
    rfl
  | .nat n, k+1, rest, _ => by
    rw [write, readValue, readHead_head (by decide), Option.bind_some]
    rfl
  | .bytes bs, k+1, rest, _ => by
    rw [write, List.append_assoc, readValue, readHead_head (by decide), Option.bind_some]
    simp only [takeBytes_append, Option.map_some]
  | .text s, k+1, rest, _ => by
    rw [write, List.append_assoc, readValue, readHead_head (by decide), Option.bind_some]
    simp only [readText_written, Option.map_some]
  | .arr items, k+1, rest, hk => by
    have hp := head_length_pos 4 items.length
    rw [write, List.length_append] at hk
    rw [write, List.append_assoc, readValue, readHead_head (by decide), Option.bind_some]
    simp only [readItems_write items k rest (by omega), Option.map_some]
  | .map fields, k+1, rest, hk => by
    have hp := head_length_pos 5 fields.length
    rw [write, List.length_append] at hk
    rw [write, List.append_assoc, readValue, readHead_head (by decide), Option.bind_some]
    simp only [readFields_write fields k rest (by omega), Option.map_some]

theorem readItems_write : ∀ (js : List Value) (k : ℕ) (rest : List UInt8),
    (writeItems js).length ≤ k →
    readMany (readValue k) js.length (writeItems js ++ rest) = some (js,rest)
  | [], k, rest, _ => by rw [writeItems, List.nil_append, List.length_nil, readMany]
  | j::js, k, rest, hk => by
    rw [writeItems, List.length_append] at hk
    rw [writeItems, List.append_assoc, List.length_cons, readMany,
      readValue_write j k _ (by omega), Option.bind_some, readItems_write js k rest (by omega),
      Option.map_some]

theorem readFields_write : ∀ (fs : List (String × Value)) (k : ℕ) (rest : List UInt8),
    (writeFields fs).length ≤ k →
    readMany (readField (readValue k)) fs.length (writeFields fs ++ rest) = some (fs,rest)
  | [], k, rest, _ => by rw [writeFields, List.nil_append, List.length_nil, readMany]
  | (name,j)::fs, k, rest, hk => by
    simp only [writeFields, List.length_append] at hk
    have hj := readValue_write j k (writeFields fs ++ rest) (by omega)
    have hfs := readFields_write fs k rest (by omega)
    simp only [writeFields, List.append_assoc, List.length_cons, readMany, readField]
    rw [readText_written, Option.bind_some, hj, Option.map_some, Option.bind_some, hfs,
      Option.map_some]
end

/-- Every written document is read back. -/
theorem read_write (j : Value) : read (write j) = some j := by
  have h := readValue_write j (write j).length [] (Nat.le_refl _)
  rw [List.append_nil] at h
  rw [read, h]

end MpcNode.Cbor
