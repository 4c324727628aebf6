import Mathlib.Data.List.Basic
import Mathlib.Data.List.TakeWhile

-- Percent-encoding of text as UTF-8, and the parameters of a URL's query.

namespace Percent

def digits : List Char :=
  ['0', '1', '2', '3', '4', '5', '6', '7', '8', '9', 'A', 'B', 'C', 'D', 'E', 'F']

def hexDigit (n : Fin 16) : Char := digits.get n

-- Both cases are read.
def hexValue (c : Char) : Option (Fin 16) := digits.finIdxOf? c.toUpper

def percentByte (b : UInt8) : List Char :=
  ['%', hexDigit (Fin.ofNat 16 (b.toNat / 16)), hexDigit (Fin.ofNat 16 b.toNat)]

-- The characters to keep stay, the others become their bytes.
def escape (keep : Char → Bool) (c : Char) : List Char :=
  if keep c then [c] else (String.utf8EncodeChar c).flatMap percentByte

def encode (keep : Char → Bool) (text : List Char) : List Char := text.flatMap (escape keep)

def readByte (high low : Char) : Option UInt8 := do
  let h ← hexValue high
  let l ← hexValue low
  return UInt8.ofNat (16 * h.val + l.val)

-- The bytes that a text spells, unless it has a malformed escape.
def bytes : List Char → Option (List UInt8)
  | [] => some []
  | c :: rest =>
      if c = '%' then
        match rest with
        | high :: low :: rest => do return (← readByte high low) :: (← bytes rest)
        | _ => none
      else (bytes rest).map (String.utf8EncodeChar c ++ ·)

def decode (text : List Char) : Option (List Char) := do
  return (← (← bytes text).toByteArray.utf8Decode?).toList

theorem hexValue_hexDigit (n : Fin 16) : hexValue (hexDigit n) = some n := by
  revert n
  decide

theorem hexDigit_mem (n : Fin 16) : hexDigit n ∈ digits := List.get_mem digits n

theorem readByte_percentByte (b : UInt8) :
    readByte (hexDigit (Fin.ofNat 16 (b.toNat / 16))) (hexDigit (Fin.ofNat 16 b.toNat)) =
      some b := by
  have hb : b.toNat < 256 := b.toNat_lt_size
  have hdigits : 16 * (b.toNat / 16 % 16) + b.toNat % 16 = b.toNat := by omega
  simp only [readByte, hexValue_hexDigit, Option.bind_eq_bind, Option.bind_some, Fin.val_ofNat,
    hdigits, UInt8.ofNat_toNat]
  rfl

theorem bytes_percentByte (b : UInt8) (rest : List Char) :
    bytes (percentByte b ++ rest) = (bytes rest).map (b :: ·) := by
  simp only [percentByte, List.cons_append, List.nil_append, bytes, if_true, readByte_percentByte]
  cases bytes rest <;> rfl

theorem bytes_flatMap (bs : List UInt8) (rest : List Char) :
    bytes (bs.flatMap percentByte ++ rest) = (bytes rest).map (bs ++ ·) := by
  induction bs with
  | nil => simp
  | cons b bs ih =>
      rw [List.flatMap_cons, List.append_assoc, bytes_percentByte, ih, Option.map_map]
      rfl

theorem bytes_cons {c : Char} (hc : c ≠ '%') (rest : List Char) :
    bytes (c :: rest) = (bytes rest).map (String.utf8EncodeChar c ++ ·) := by
  rw [bytes.eq_def (c :: rest)]
  exact if_neg hc

variable {keep : Char → Bool}

theorem bytes_escape (hkeep : keep '%' = false) (c : Char) (rest : List Char) :
    bytes (escape keep c ++ rest) = (bytes rest).map (String.utf8EncodeChar c ++ ·) := by
  unfold escape
  split
  · rename_i hc
    have hne : c ≠ '%' := fun he => by
      rw [he, hkeep] at hc
      cases hc
    exact bytes_cons hne rest
  · exact bytes_flatMap _ rest

theorem bytes_encode (hkeep : keep '%' = false) (text : List Char) :
    bytes (encode keep text) = some (text.flatMap String.utf8EncodeChar) := by
  induction text with
  | nil => rfl
  | cons c text ih =>
      have hcons : encode keep (c :: text) = escape keep c ++ encode keep text := List.flatMap_cons
      rw [hcons, bytes_escape hkeep, ih, List.flatMap_cons]
      rfl

-- Every text comes back, as long as the percent sign is not kept.
theorem decode_encode (hkeep : keep '%' = false) (text : List Char) :
    decode (encode keep text) = some text := by
  unfold decode
  rw [bytes_encode hkeep]
  have hutf8 : (text.flatMap String.utf8EncodeChar).toByteArray.utf8Decode? = some text.toArray :=
    List.utf8Decode?_utf8Encode
  simp [hutf8]

theorem mem_encode {text : List Char} {c : Char} (h : c ∈ encode keep text) :
    keep c = true ∨ c = '%' ∨ c ∈ digits := by
  obtain ⟨a, _, hc⟩ := List.mem_flatMap.mp h
  unfold escape at hc
  split at hc
  · rename_i ha
    rw [List.mem_singleton.mp hc]
    exact .inl ha
  · obtain ⟨b, _, hb⟩ := List.mem_flatMap.mp hc
    right
    rcases List.mem_cons.mp hb with rfl | hb
    · exact .inl rfl
    · right
      rcases List.mem_cons.mp hb with rfl | hb
      · exact hexDigit_mem _
      · rw [List.mem_singleton.mp hb]
        exact hexDigit_mem _

section Query

-- The query of a URL: behind the first question mark, and in front of the fragment.
def query (url : List Char) : List Char :=
  ((url.takeWhile (· ≠ '#')).dropWhile (· ≠ '?')).tail

def component (text : List Char) : Option (List Char) :=
  decode (text.map fun c => if c = '+' then ' ' else c)

-- A parameter, split at its first equals sign.
def parameter (text : List Char) : Option (List Char × List Char) := do
  return (← component (text.takeWhile (· ≠ '=')), ← component (text.dropWhile (· ≠ '=')).tail)

def parameters (url : List Char) : List (List Char × List Char) :=
  ((query url).splitOn '&').filterMap parameter

-- What ends a component, or is read as something else in it.
def special : List Char := ['%', '+', '&', '#']

theorem takeWhile_cut {a : Char} {front : List Char} (h : a ∉ front) (rest : List Char) :
    (front ++ a :: rest).takeWhile (· ≠ a) = front := by
  rw [List.takeWhile_append_of_pos fun c hc => decide_eq_true (ne_of_mem_of_not_mem hc h)]
  simp

theorem dropWhile_cut {a : Char} {front : List Char} (h : a ∉ front) (rest : List Char) :
    ((front ++ a :: rest).dropWhile (· ≠ a)).tail = rest := by
  rw [List.dropWhile_append_of_pos fun c hc => decide_eq_true (ne_of_mem_of_not_mem hc h)]
  simp

theorem map_plus_of_notMem {text : List Char} (h : '+' ∉ text) :
    (text.map fun c => if c = '+' then ' ' else c) = text := by
  have hsame (c : Char) (hc : c ∈ text) : (if c = '+' then ' ' else c) = c :=
    if_neg (ne_of_mem_of_not_mem hc h)
  rw [List.map_congr_left hsame, List.map_id']

section

variable (hkeep : ∀ c ∈ special, keep c = false)

include hkeep

theorem notMem_of_keep {name : List Char} (hname : ∀ c ∈ name, keep c = true) {c : Char}
    (hc : c ∈ special) : c ∉ name := fun hmem => by
  have hkept := hname c hmem
  rw [hkeep c hc] at hkept
  cases hkept

theorem notMem_encode (text : List Char) {c : Char} (hc : c ∈ ['+', '&', '#']) :
    c ∉ encode keep text := fun hmem => by
  rcases mem_encode hmem with hkept | rfl | hdigit
  · rw [hkeep c (List.mem_cons_of_mem _ hc)] at hkept
    cases hkept
  · revert hc
    decide
  · have hapart : ∀ d ∈ digits, d ∉ ['+', '&', '#'] := by simp [digits]
    exact hapart c hdigit hc

theorem component_encode (text : List Char) : component (encode keep text) = some text := by
  rw [component, map_plus_of_notMem (notMem_encode hkeep text (by decide))]
  exact decode_encode (hkeep '%' (by decide)) text

omit hkeep in
theorem encode_of_keep {name : List Char} (hname : ∀ c ∈ name, keep c = true) :
    encode keep name = name := by
  have hsame (c : Char) (hc : c ∈ name) : escape keep c = [c] := if_pos (hname c hc)
  rw [encode, List.flatMap_congr hsame]
  exact List.flatMap_singleton' name

-- A URL with one parameter, whose name needs no escapes.
theorem parameters_eq {front name : List Char} (hquestion : '?' ∉ front) (hfragment : '#' ∉ front)
    (hname : ∀ c ∈ name, keep c = true) (hequals : '=' ∉ name) (value : List Char) :
    parameters (front ++ '?' :: (name ++ '=' :: encode keep value)) = [(name, value)] := by
  have hplain {c : Char} (hc : c ∈ ['+', '&', '#']) (hne : c ≠ '=') :
      c ∉ name ++ '=' :: encode keep value := by
    rw [List.mem_append, List.mem_cons]
    rintro (hmem | he | hmem)
    · exact notMem_of_keep hkeep hname (List.mem_cons_of_mem _ hc) hmem
    · exact hne he
    · exact notMem_encode hkeep value hc hmem
  have hquery : query (front ++ '?' :: (name ++ '=' :: encode keep value)) =
      name ++ '=' :: encode keep value := by
    have hnone : '#' ∉ front ++ '?' :: (name ++ '=' :: encode keep value) := by
      rw [List.mem_append, List.mem_cons]
      rintro (hmem | he | hmem)
      · exact hfragment hmem
      · cases he
      · exact hplain (by decide) (by decide) hmem
    rw [query, List.takeWhile_eq_self_iff.mpr fun c hc =>
      decide_eq_true (ne_of_mem_of_not_mem hc hnone)]
    exact dropWhile_cut hquestion _
  have hone : (name ++ '=' :: encode keep value).splitOn '&' =
      [name ++ '=' :: encode keep value] := by
    refine List.splitOnP_eq_singleton fun c hc => beq_false_of_ne ?_
    exact ne_of_mem_of_not_mem hc (hplain (by decide) (by decide))
  have hcomponent : component name = some name := by
    have hencoded := component_encode hkeep name
    rwa [encode_of_keep hname] at hencoded
  rw [parameters, hquery, hone, List.filterMap_cons, parameter, takeWhile_cut hequals,
    dropWhile_cut hequals, component_encode hkeep, hcomponent]
  rfl

end

end Query

end Percent
