import ServerCore.Web.HttpResumption

/-! A request as it stands on the wire, and how the header block is cut into the
request line and the header lines. -/

namespace ServerCore.Web

open ServerCore.Core

structure Chunk where
  line : Bytes
  data : Bytes
  deriving DecidableEq, Repr

def Chunk.encode (c : Chunk) : Bytes := c.line ++ crlf ++ c.data ++ crlf

def encodeLines (lines : List Bytes) : Bytes := lines.flatMap (· ++ crlf)

inductive Payload
  | fixed (body : Bytes)
  | chunked (chunks : List Chunk) (last : Bytes) (trailers : List Bytes)
  deriving DecidableEq, Repr

namespace Payload

def encode : Payload → Bytes
  | fixed body => body
  | chunked chunks last trailers =>
    chunks.flatMap Chunk.encode ++ (last ++ crlf ++ (encodeLines trailers ++ crlf))

def body : Payload → Bytes
  | fixed body => body
  | chunked chunks _ _ => chunks.flatMap Chunk.data

def overhead : Payload → ℕ
  | fixed _ => 0
  | chunked chunks last _ => (chunks.map fun c => c.line.length + 4).sum + (last.length + 2)

end Payload

structure Message where
  emptyLines : ℕ
  method : Bytes
  target : Bytes
  version : Bytes
  fields : List Bytes
  payload : Payload
  deriving DecidableEq, Repr

def Message.requestLine (m : Message) : Bytes := m.method ++ ascii " " ++ m.target ++ ascii " " ++ m.version

def Message.block (m : Message) : Bytes := m.requestLine ++ crlf ++ encodeLines m.fields

def Message.encode (m : Message) : Bytes :=
  encodeLines (List.replicate m.emptyLines []) ++ (m.block ++ crlf ++ m.payload.encode)

def fieldValues (name : String) (headers : List (Bytes × Bytes)) : List Bytes :=
  (headers.filter fun field => field.1 = ascii name).map Prod.snd

def numeral (base : ℕ) (digits : Bytes) : ℕ := digits.foldl (fun acc b => acc * base + hexDigit b) 0

structure AbsoluteForm (target authority path : Bytes) : Prop where
  split : ∃ scheme, target = scheme ++ (ascii "://" ++ (authority ++ path)) ∧
    (equalInsensitive scheme (ascii "http") = true ∨ equalInsensitive scheme (ascii "https") = true)
  authority : ∀ b ∈ authority, b ≠ 47 ∧ b ≠ 63
  path : path = [] ∨ ∃ rest, path = 47 :: rest ∨ path = 63 :: rest

structure SizeLine (line : Bytes) (n : ℕ) : Prop where
  split : ∃ digits extensions, line = digits ++ extensions ∧ digits ≠ [] ∧
    (∀ b ∈ digits, isHexDigit b = true) ∧ (∀ b ∈ extensions.head?, isHexDigit b = false) ∧
    (extensions ≠ [] → validChunkExtensions extensions = true) ∧ n = numeral 16 digits

namespace HttpParser

lemma find_split {pattern x : Bytes} {n : ℕ} (h : find pattern x = some n) :
    x = x.take n ++ (pattern ++ x.drop (n + pattern.length)) := by
  obtain ⟨rest, hr⟩ := find_starts h
  have hd : x.drop (n + pattern.length) = rest := by
    rw [← List.drop_drop, ← hr, List.drop_left]
  rw [hd, hr, List.take_append_drop]

lemma skipEmptyLines_split (x : Bytes) :
    ∃ n, x = encodeLines (List.replicate n []) ++ skipEmptyLines x := by
  fun_induction skipEmptyLines x with
  | case1 rest ih =>
    obtain ⟨n, hn⟩ := ih
    refine ⟨n + 1, ?_⟩
    rw [List.replicate_succ, encodeLines, List.flatMap_cons]
    simpa [encodeLines, crlf] using hn
  | case2 x hx => exact ⟨0, rfl⟩

lemma scanHeaders_paired {x : Bytes} {index count blank j : ℕ}
    (h : scanHeaders x index count = .found blank) (hi : index ≤ j) (hj : j ≤ blank + 3)
    (hx : x[j]? = some 10) : j ≠ 0 ∧ x[j - 1]? = some 13 := by
  induction count generalizing index with
  | zero => simp [scanHeaders] at h
  | succ count ih =>
    simp only [scanHeaders] at h
    rcases hi.eq_or_lt with rfl | hlt
    · simp only [hx, beq_self_eq_true, if_true] at h
      split at h
      · cases h
      · rename_i hcr
        simpa using hcr
    · split at h
      · split at h
        · cases h
        split at h
        · rename_i hb
          simp only [Bool.and_eq_true, decide_eq_true_eq] at hb
          simp only [Scan.found.injEq] at h
          omega
        · exact ih h hlt
      · split at h
        · cases h
        · exact ih h hlt

lemma scanHeaders_blank {x : Bytes} {index count blank : ℕ}
    (h : scanHeaders x index count = .found blank) :
    x[blank + 1]? = some 10 ∧ x[blank + 2]? = some 13 ∧ x[blank + 3]? = some 10 := by
  induction count generalizing index with
  | zero => simp [scanHeaders] at h
  | succ count ih =>
    simp only [scanHeaders] at h
    split at h
    · rename_i hlf
      split at h
      · cases h
      rename_i hcr
      split at h
      · rename_i hb
        simp only [Bool.and_eq_true, decide_eq_true_eq, beq_iff_eq] at hb
        simp only [beq_iff_eq] at hlf
        simp only [Bool.not_eq_true, Bool.not_eq_false', Bool.and_eq_true, beq_iff_eq] at hcr
        obtain rfl : index - 3 = blank := by simpa using h
        refine ⟨?_, ?_, ?_⟩
        · rw [← hb.2]; congr 1; omega
        · rw [← hcr.2]; congr 1; omega
        · rw [← hlf]; congr 1; omega
      · exact ih h
    · split at h
      · cases h
      · exact ih h

lemma take_two_of_getElem {x : Bytes} {n : ℕ} {a b : Byte} (ha : x[n]? = some a) (hb : x[n + 1]? = some b) :
    x.drop n = [a, b] ++ x.drop (n + 2) := by
  obtain ⟨hn, rfl⟩ := List.getElem?_eq_some_iff.mp ha
  obtain ⟨hn', rfl⟩ := List.getElem?_eq_some_iff.mp hb
  rw [List.drop_eq_getElem_cons hn, List.drop_eq_getElem_cons hn']
  rfl

lemma scanHeaders_split {x : Bytes} {count blank : ℕ} (h : scanHeaders x 0 count = .found blank) :
    crlf <:+ x.take (blank + 2) ∧ x = x.take (blank + 2) ++ (crlf ++ x.drop (blank + 4)) := by
  obtain ⟨h₁, h₂, h₃⟩ := scanHeaders_blank h
  have h₀ : x[blank]? = some 13 := (scanHeaders_paired h (Nat.zero_le _) (by omega) h₁).2
  have hd := take_two_of_getElem h₀ h₁
  have hd' := take_two_of_getElem h₂ h₃
  constructor
  · refine ⟨x.take blank, ?_⟩
    rw [List.take_add, hd]
    rfl
  · exact (List.take_append_drop (blank + 2) x).symm.trans (by rw [hd']; rfl)

lemma suffix_crlf_cons {b : Byte} {rest : Bytes} (h : crlf <:+ b :: rest)
    (hne : b :: rest ≠ crlf) : crlf <:+ rest := by
  rcases List.suffix_cons_iff.mp h with h | h
  · exact absurd h.symm hne
  · exact h

lemma encodeLines_headerLines (acc bytes : Bytes) (h : crlf <:+ bytes) :
    encodeLines (headerLines acc bytes) = acc.reverse ++ bytes := by
  fun_induction headerLines acc bytes with
  | case1 line hl => simp [crlf] at h
  | case2 line hl => simp [crlf] at h
  | case3 line rest ih =>
    rw [encodeLines, List.flatMap_cons]
    cases rest with
    | nil => simp [headerLines, crlf]
    | cons b rest =>
      have hs := suffix_crlf_cons (suffix_crlf_cons h (by simp [crlf])) (by simp [crlf])
      have hr := ih hs
      rw [encodeLines] at hr
      rw [hr]
      simp [crlf]
  | case4 line b rest hne ih =>
    have hs : crlf <:+ rest := by
      apply suffix_crlf_cons h
      intro heq
      simp only [crlf, List.cons.injEq] at heq
      exact hne [] heq.1 heq.2
    rw [ih hs]
    simp

lemma encodeLines_fields (line : Bytes) {rest : Bytes} (h : crlf <:+ line ++ (crlf ++ rest)) :
    encodeLines (headerLines [] rest) = rest := by
  cases rest with
  | nil => rfl
  | cons b rest =>
    have hs : crlf <:+ b :: rest := by
      cases rest with
      | nil =>
        obtain ⟨front, hf⟩ := h
        have hr := congrArg List.reverse hf
        simp [crlf] at hr
      | cons b' rest =>
        exact List.suffix_of_suffix_length_le h
          (by rw [← List.append_assoc]; exact List.suffix_append _ _) (by simp [crlf])
    rw [encodeLines_headerLines _ _ hs]
    rfl

end HttpParser

end ServerCore.Web
