import ServerCore.Web.MultipartSearch

/-! Header blocks as a sender writes them, and that the parser reads them back. -/

namespace ServerCore.Web.Multipart

open ServerCore.Core

section Trim

variable {a b x y : Bytes}

def Blanks (pad : Bytes) : Prop := ∀ c ∈ pad, isBlank c = true

def Bare (x : Bytes) : Prop := ∀ c, x.head? = some c ∨ x.getLast? = some c → isBlank c = false

lemma dropWhile_blanks (ha : Blanks a) (y : Bytes) : (a ++ y).dropWhile isBlank = y.dropWhile isBlank := by
  induction a with
  | nil => rfl
  | cons c a ih =>
    rw [List.cons_append, List.dropWhile_cons, if_pos (ha c (by simp))]
    exact ih fun c hc => ha c (List.mem_cons_of_mem _ hc)

lemma dropWhile_head (h : ∀ c, x.head? = some c → isBlank c = false) : x.dropWhile isBlank = x := by
  cases x with
  | nil => rfl
  | cons c x => rw [List.dropWhile_cons, if_neg (by simp [h c rfl])]

lemma trim_bare (h : Bare x) : trim x = x := by
  have hhead : x.dropWhile isBlank = x := dropWhile_head fun c hc => h c (.inl hc)
  have hlast : x.reverse.dropWhile isBlank = x.reverse :=
    dropWhile_head fun c hc => h c (.inr (by rwa [List.head?_reverse] at hc))
  rw [trim, hhead, hlast, List.reverse_reverse]

lemma trim_pad_left (ha : Blanks a) (x : Bytes) : trim (a ++ x) = trim x := by
  rw [trim, dropWhile_blanks ha, trim]

lemma trim_pad_right (hb : Blanks b) (x : Bytes) : trim (x ++ b) = trim x := by
  have hrev : Blanks b.reverse := fun c hc => hb c (List.mem_reverse.mp hc)
  rw [trim, trim, List.dropWhile_append]
  split
  · rename_i hnil
    have hx : x.dropWhile isBlank = [] := by simpa using hnil
    have hb' : b.dropWhile isBlank = [] := by simpa using dropWhile_blanks hb []
    rw [hb', hx]
  · rw [List.reverse_append, dropWhile_blanks hrev]

lemma trim_pad (ha : Blanks a) (hb : Blanks b) (h : Bare x) : trim (a ++ x ++ b) = x := by
  rw [trim_pad_right hb, trim_pad_left ha, trim_bare h]

lemma bare_append (hx : x ≠ []) (hy : y ≠ []) (hhead : ∀ c, x.head? = some c → isBlank c = false)
    (hlast : ∀ c, y.getLast? = some c → isBlank c = false) : Bare (x ++ y) := by
  rintro c (hc | hc)
  · rw [List.head?_append_of_ne_nil _ hx] at hc
    exact hhead c hc
  · rw [List.getLast?_append_of_ne_nil _ hy] at hc
    exact hlast c hc

lemma isTokenByte_not_blank {c : Byte} (h : isTokenByte c = true) : isBlank c = false := by
  by_contra hb
  simp only [isBlank, Bool.or_eq_true, beq_iff_eq, Bool.not_eq_false] at hb
  rcases hb with rfl | rfl <;> exact absurd h (by decide)

lemma isToken_bare (h : isToken x = true) : Bare x := by
  rw [isToken_iff] at h
  rintro c (hc | hc)
  · exact isTokenByte_not_blank (h.2 c (List.mem_of_mem_head? hc))
  · exact isTokenByte_not_blank (h.2 c (List.mem_of_getLast? hc))

lemma find_separator {c : Byte} (h : c ∉ x) (y : Bytes) : find [c] (x ++ c :: y) = some x.length := by
  apply find_eq_some
  · simp
  · simp
  · rintro j hj ⟨tail, htail⟩
    rw [List.drop_append_of_le_length hj.le] at htail
    cases hd : x.drop j with
    | nil =>
      have := List.drop_eq_nil_iff.mp hd
      omega
    | cons d rest =>
      rw [hd] at htail
      simp only [List.cons_append, List.nil_append, List.cons.injEq] at htail
      apply h
      rw [htail.1]
      exact List.mem_of_mem_drop (i := j) (by rw [hd]; simp)

lemma find_no_separator {c : Byte} (h : c ∉ x) : find [c] x = none := by
  apply find_eq_none
  rintro j - ⟨tail, htail⟩
  apply h
  apply List.mem_of_mem_drop (i := j)
  rw [← htail]
  simp

end Trim

section Parameters

inductive ParameterText
  | token (value : Bytes)
  | quoted (value : List (Bool × Byte))

def ParameterText.value : ParameterText → Bytes
  | .token value => value
  | .quoted value => value.map (·.2)

def quotedText (value : List (Bool × Byte)) : Bytes :=
  value.flatMap fun c => if c.1 then [92, c.2] else [c.2]

def ParameterText.text : ParameterText → Bytes
  | .token value => value
  | .quoted value => 34 :: (quotedText value ++ [34])

def ParameterText.Wf : ParameterText → Prop
  | .token value => isToken value = true ∧ metadata value = true
  | .quoted value => (∀ c ∈ value, c.1 = false → c.2 ≠ 34 ∧ c.2 ≠ 92) ∧ metadata (value.map (·.2)) = true

-- `pad ; pad name pad = pad value`
structure Parameter where
  before : Bytes
  gap : Bytes
  name : Bytes
  beforeEqual : Bytes
  afterEqual : Bytes
  text : ParameterText

structure Parameter.Wf (p : Parameter) : Prop where
  before : Blanks p.before
  gap : Blanks p.gap
  name : isToken p.name = true
  beforeEqual : Blanks p.beforeEqual
  afterEqual : Blanks p.afterEqual
  text : p.text.Wf

def Parameter.entry (p : Parameter) : Bytes × Bytes := (p.name.map lower, p.text.value)

def Parameter.body (p : Parameter) : Bytes :=
  p.gap ++ (p.name ++ (p.beforeEqual ++ (61 :: (p.afterEqual ++ p.text.text))))

def parametersText : List Parameter → Bytes
  | [] => []
  | p :: rest => p.before ++ (59 :: (p.body ++ parametersText rest))

variable {p : Parameter} {list : List Parameter}

lemma blanks_not_mem {pad : Bytes} (h : Blanks pad) {c : Byte} (hc : isBlank c = false) : c ∉ pad := by
  intro hmem
  rw [h c hmem] at hc
  cases hc

lemma token_not_mem {x : Bytes} (h : isToken x = true) {c : Byte} (hc : isTokenByte c = false) : c ∉ x := by
  intro hmem
  rw [(isToken_iff.mp h).2 c hmem] at hc
  cases hc

lemma text_ends (h : p.text.Wf) :
    p.text.text ≠ [] ∧ (∀ c, p.text.text.head? = some c → isBlank c = false) ∧
      ∀ c, p.text.text.getLast? = some c → isBlank c = false := by
  cases ht : p.text with
  | token value =>
    rw [ht] at h
    have hb := isToken_bare h.1
    exact ⟨(isToken_iff.mp h.1).1, fun c hc => hb c (.inl hc), fun c hc => hb c (.inr hc)⟩
  | quoted value =>
    refine ⟨by simp [ParameterText.text], fun c hc => ?_, fun c hc => ?_⟩
    · obtain rfl : 34 = c := by simpa [ParameterText.text] using hc
      decide
    · obtain rfl : 34 = c := by
        rw [ParameterText.text, ← List.cons_append, List.getLast?_append_of_ne_nil _ (by simp)] at hc
        simpa using hc
      decide

lemma parametersText_last (hl : ∀ q ∈ list, q.Wf) {x : Bytes} (hx : x ≠ [])
    (hlast : ∀ c, x.getLast? = some c → isBlank c = false) :
    ∀ c, (x ++ parametersText list).getLast? = some c → isBlank c = false := by
  induction list generalizing x with
  | nil => simpa [parametersText] using hlast
  | cons q list ih =>
    obtain ⟨hne, -, htext⟩ := text_ends (hl q (by simp)).text
    have := ih (x := x ++ (q.before ++ (59 :: q.body))) (fun r hr => hl r (List.mem_cons_of_mem _ hr)) (by simp [hx]) (by
      intro c hc
      apply htext c
      have heq : x ++ (q.before ++ (59 :: q.body)) =
          (x ++ (q.before ++ (59 :: (q.gap ++ (q.name ++ (q.beforeEqual ++ (61 :: q.afterEqual))))))) ++ q.text.text := by
        simp [Parameter.body]
      rw [heq, List.getLast?_append_of_ne_nil _ hne] at hc
      exact hc)
    simpa [parametersText] using this

lemma quotedValue_text (value : List (Bool × Byte)) (rest : Bytes)
    (h : ∀ c ∈ value, c.1 = false → c.2 ≠ 34 ∧ c.2 ≠ 92) :
    quotedValue (quotedText value ++ 34 :: rest) = some (value.map (·.2), rest) := by
  induction value with
  | nil =>
    unfold quotedValue
    rfl
  | cons c value ih =>
    have ih := ih fun d hd => h d (List.mem_cons_of_mem _ hd)
    obtain ⟨escaped, b⟩ := c
    have hcons : quotedText ((escaped, b) :: value) = (if escaped then [92, b] else [b]) ++ quotedText value := rfl
    cases escaped with
    | true =>
      rw [hcons]
      simp only [↓reduceIte, List.cons_append, List.nil_append, quotedValue, List.map_cons]
      rw [ih]
      rfl
    | false =>
      obtain ⟨h34, h92⟩ := h (false, b) (by simp) rfl
      have e34 : (b == 34) = false := by simpa using h34
      have e92 : (b == 92) = false := by simpa using h92
      rw [hcons]
      simp only [Bool.false_eq_true, ↓reduceIte, List.cons_append, List.nil_append, List.map_cons]
      unfold quotedValue
      simp only [e34, e92, Bool.false_eq_true, ↓reduceIte]
      rw [ih]
      rfl

def afterValue : List Parameter → Bytes
  | [] => []
  | q :: rest => q.body ++ parametersText rest

lemma body_trim (h : p.Wf) (hl : ∀ q ∈ list, q.Wf) :
    trim (p.body ++ parametersText list) =
      p.name ++ (p.beforeEqual ++ (61 :: (p.afterEqual ++ (p.text.text ++ parametersText list)))) := by
  have hname := (isToken_iff.mp h.name).1
  obtain ⟨hne, -, htext⟩ := text_ends h.text
  have hlast := parametersText_last hl hne htext
  have hbare : Bare (p.name ++ (p.beforeEqual ++ (61 :: (p.afterEqual ++ (p.text.text ++ parametersText list))))) := by
    apply bare_append hname (by simp)
    · exact fun c hc => isToken_bare h.name c (.inl hc)
    · intro c hc
      apply hlast c
      rw [List.append_cons, ← List.append_assoc, List.getLast?_append_of_ne_nil _ (by simp [hne])] at hc
      exact hc
  have hbody : p.body ++ parametersText list = p.gap ++
      (p.name ++ (p.beforeEqual ++ (61 :: (p.afterEqual ++ (p.text.text ++ parametersText list))))) := by
    simp [Parameter.body]
  rw [hbody, trim_pad_left h.gap, trim_bare hbare]

lemma nextParameter_body (h : p.Wf) (hl : ∀ q ∈ list, q.Wf) (value : Bytes) :
    nextParameter value (p.body ++ parametersText list) = some (value, p.body ++ parametersText list) := by
  have hname := (isToken_iff.mp h.name).1
  rw [nextParameter, body_trim h hl, if_neg]
  simp [hname]

lemma parameterValue_text {text : ParameterText} (ht : text.Wf) (hl : ∀ q ∈ list, q.Wf) :
    parameterValue (text.text ++ parametersText list) = some (text.value, afterValue list) := by
  cases text with
  | quoted value =>
    have hq := quotedValue_text value (parametersText list) ht.1
    simp only [ParameterText.text, List.cons_append, List.append_assoc, List.nil_append, parameterValue, beq_self_eq_true,
      ↓reduceIte, quotedParameter, hq]
    cases list with
    | nil => simp [parametersText, trim, afterValue, ParameterText.value]
    | cons q list =>
      have hq := hl q (by simp)
      have hl' : ∀ r ∈ list, r.Wf := fun r hr => hl r (List.mem_cons_of_mem _ hr)
      have hbare : Bare (59 :: (q.body ++ parametersText list)) := by
        have hb := parametersText_last hl' (x := 59 :: q.body) (by simp) (by
          obtain ⟨hne, -, htext⟩ := text_ends hq.text
          intro c hc
          apply htext c
          rw [show (59 :: q.body) = (59 :: (q.gap ++ (q.name ++ (q.beforeEqual ++ (61 :: q.afterEqual))))) ++ q.text.text by
            simp [Parameter.body], List.getLast?_append_of_ne_nil _ hne] at hc
          exact hc)
        rintro c (hc | hc)
        · obtain rfl : 59 = c := by simpa using hc
          decide
        · exact hb c (by simpa using hc)
      rw [parametersText, trim_pad_left hq.before, trim_bare hbare]
      simp [nextParameter_body hq hl', afterValue, ParameterText.value]
  | token value =>
    have htok := ht.1
    have hsemi : (59 : Byte) ∉ value := token_not_mem htok (by decide)
    have hparse : parameterValue (value ++ parametersText list) = tokenParameter (value ++ parametersText list) := by
      cases value with
      | nil => exact absurd rfl (isToken_iff.mp htok).1
      | cons c value =>
        have hc : (c == 34) = false := by
          have : (34 : Byte) ∉ c :: value := token_not_mem htok (by decide)
          simp only [List.mem_cons, not_or] at this
          simpa using fun h : c = 34 => this.1 h.symm
        simp only [List.cons_append, parameterValue, hc, Bool.false_eq_true, ↓reduceIte]
    have hascii : ascii ";" = [59] := by decide
    rw [ParameterText.text, hparse, tokenParameter, hascii]
    cases list with
    | nil =>
      simp only [parametersText, List.append_nil, find_no_separator hsemi, upTo, trim_bare (isToken_bare htok), htok]
      rfl
    | cons q list =>
      have hq := hl q (by simp)
      have hl' : ∀ r ∈ list, r.Wf := fun r hr => hl r (List.mem_cons_of_mem _ hr)
      have hpad : (59 : Byte) ∉ value ++ q.before := by
        simp only [List.mem_append, not_or]
        exact ⟨hsemi, blanks_not_mem hq.before (by decide)⟩
      have hfind := find_separator hpad (q.body ++ parametersText list)
      have htext : value ++ parametersText (q :: list) = (value ++ q.before) ++ 59 :: (q.body ++ parametersText list) := by
        simp [parametersText]
      have hdrop : ((value ++ q.before) ++ 59 :: (q.body ++ parametersText list)).drop ((value ++ q.before).length + 1) =
          q.body ++ parametersText list := by
        rw [List.append_cons, List.drop_left']
        simp only [List.length_append, List.length_cons, List.length_nil]
      rw [htext]
      simp only [hfind, upTo, List.take_left, trim_pad_right hq.before, trim_bare (isToken_bare htok), htok, hdrop,
        nextParameter_body hq hl']
      rfl

lemma metadata_value {text : ParameterText} (h : text.Wf) : metadata text.value = true := by
  cases text with
  | token value => exact h.2
  | quoted value => exact h.2

lemma parameterLoop_turn {fuel : ℕ} (h : p.Wf) (hl : ∀ q ∈ list, q.Wf) {found : List (Bytes × Bytes)}
    (hnew : p.entry.1 ∉ found.map Prod.fst) :
    parameterLoop (fuel + 1) (p.body ++ parametersText list) found =
      parameterLoop fuel (afterValue list) (found ++ [p.entry]) := by
  obtain ⟨hne, hhead, htext⟩ := text_ends h.text
  have hequal : (61 : Byte) ∉ p.name ++ p.beforeEqual := by
    simp only [List.mem_append, not_or]
    exact ⟨token_not_mem h.name (by decide), blanks_not_mem h.beforeEqual (by decide)⟩
  have hsplit : p.name ++ (p.beforeEqual ++ (61 :: (p.afterEqual ++ (p.text.text ++ parametersText list)))) =
      (p.name ++ p.beforeEqual) ++ 61 :: (p.afterEqual ++ (p.text.text ++ parametersText list)) := by
    simp
  have hfind := find_separator hequal (p.afterEqual ++ (p.text.text ++ parametersText list))
  have hdrop : ((p.name ++ p.beforeEqual) ++ 61 :: (p.afterEqual ++ (p.text.text ++ parametersText list))).drop
      ((p.name ++ p.beforeEqual).length + 1) = p.afterEqual ++ (p.text.text ++ parametersText list) := by
    rw [List.append_cons, List.drop_left']
    simp only [List.length_append, List.length_cons, List.length_nil]
  have hbare : Bare (p.text.text ++ parametersText list) := by
    rintro c (hc | hc)
    · rw [List.head?_append_of_ne_nil _ hne] at hc
      exact hhead c hc
    · exact parametersText_last hl hne htext c hc
  have hvalue : trim (p.afterEqual ++ (p.text.text ++ parametersText list)) = p.text.text ++ parametersText list := by
    rw [trim_pad_left h.afterEqual, trim_bare hbare]
  have hempty : (p.body ++ parametersText list).isEmpty = false := by
    simp [Parameter.body]
  have hname : trim (p.name ++ p.beforeEqual) = p.name := by
    rw [trim_pad_right h.beforeEqual, trim_bare (isToken_bare h.name)]
  have hany : (found.any fun entry => entry.1 == p.name.map lower) = false := by
    rw [List.any_eq_false]
    intro entry hmem heq
    apply hnew
    rw [Parameter.entry, ← show entry.1 = p.name.map lower by simpa using heq]
    exact List.mem_map.mpr ⟨entry, hmem, rfl⟩
  have hascii : ascii "=" = [61] := by decide
  rw [parameterLoop]
  simp only [hempty, body_trim h hl, hsplit, hascii, hfind, List.take_left, hname, isToken_lower h.name, hany, hdrop, hvalue,
    parameterValue_text h.text hl, metadata_value h.text]
  rfl

lemma parameterLoop_nil (fuel : ℕ) (found : List (Bytes × Bytes)) : parameterLoop (fuel + 1) [] found = some found := rfl

lemma parameterLoop_text {fuel : ℕ} (h : p.Wf) (hl : ∀ q ∈ list, q.Wf) {l : List (Bytes × Bytes)}
    (hnodup : (l.map Prod.fst ++ (p :: list).map fun q => q.entry.1).Nodup)
    (hfuel : (p.body ++ parametersText list).length < fuel) :
    parameterLoop fuel (p.body ++ parametersText list) l = some (l ++ (p :: list).map Parameter.entry) := by
  have hnew : p.entry.1 ∉ l.map Prod.fst := by
    intro hmem
    rw [List.nodup_append] at hnodup
    exact hnodup.2.2 _ hmem _ (by simp) rfl
  induction list generalizing p l fuel with
  | nil =>
    obtain ⟨fuel, rfl⟩ : ∃ m, fuel = m + 2 := ⟨fuel - 2, by
      simp only [Parameter.body, List.length_append, List.length_cons] at hfuel
      omega⟩
    rw [parameterLoop_turn h hl hnew]
    exact parameterLoop_nil _ _
  | cons q list ih =>
    obtain ⟨fuel, rfl⟩ : ∃ m, fuel = m + 1 := ⟨fuel - 1, by omega⟩
    have hnodup' : ((l ++ [p.entry]).map Prod.fst ++ (q :: list).map fun q => q.entry.1).Nodup := by
      simpa [List.map_append] using hnodup
    have hnew' : q.entry.1 ∉ (l ++ [p.entry]).map Prod.fst := by
      intro hmem
      rw [List.nodup_append] at hnodup'
      exact hnodup'.2.2 _ hmem _ (by simp) rfl
    rw [parameterLoop_turn h hl hnew, afterValue, ih (hl q (by simp)) (fun r hr => hl r (List.mem_cons_of_mem _ hr)) hnodup'
      (by
        simp only [parametersText, List.length_append, List.length_cons] at hfuel ⊢
        omega) hnew']
    simp

end Parameters

section Disposition

-- `form-data`, in any case, with its parameters.
structure Disposition where
  main : Bytes
  parameters : List Parameter

def Disposition.text (d : Disposition) : Bytes := d.main ++ parametersText d.parameters

def Disposition.entries (d : Disposition) : List (Bytes × Bytes) := d.parameters.map Parameter.entry

structure Disposition.Wf (d : Disposition) : Prop where
  main : d.main.map lower = ascii "form-data"
  parameters : ∀ p ∈ d.parameters, p.Wf
  distinct : (d.entries.map Prod.fst).Nodup
  named : (d.entries.lookup (ascii "name")).isSome = true
  plain : ascii "filename*" ∉ d.entries.map Prod.fst

variable {d : Disposition}

lemma main_token (h : d.main.map lower = ascii "form-data") : isToken d.main = true := by
  rw [isToken_iff]
  refine ⟨?_, fun c hc => ?_⟩
  · rintro hnil
    rw [hnil] at h
    exact absurd h (by decide)
  · have hmem : lower c ∈ ascii "form-data" := h ▸ List.mem_map_of_mem hc
    have htok : (ascii "form-data").all isTokenByte = true := by decide
    have hl := List.all_eq_true.mp htok _ hmem
    simp only [lower] at hl
    split at hl
    · rename_i hupper
      simp only [isTokenByte, Bool.or_eq_true]
      exact .inl (.inl (.inr hupper))
    · exact hl

lemma parameters_text (h : d.Wf) : parameters d.text = some ⟨ascii "form-data", d.entries⟩ := by
  have htok := main_token h.main
  have hsemi : (59 : Byte) ∉ d.main := token_not_mem htok (by decide)
  have hascii : ascii ";" = [59] := by decide
  cases hp : d.parameters with
  | nil =>
    have := h.named
    simp [Disposition.entries, hp] at this
  | cons p list =>
    have hwf := h.parameters
    rw [hp] at hwf
    have hp' := hwf p (by simp)
    have hpad : (59 : Byte) ∉ d.main ++ p.before := by
      simp only [List.mem_append, not_or]
      exact ⟨hsemi, blanks_not_mem hp'.before (by decide)⟩
    have htext : d.text = (d.main ++ p.before) ++ 59 :: (p.body ++ parametersText list) := by
      simp [Disposition.text, hp, parametersText]
    have hfind := find_separator hpad (p.body ++ parametersText list)
    have hdrop : ((d.main ++ p.before) ++ 59 :: (p.body ++ parametersText list)).drop ((d.main ++ p.before).length + 1) =
        p.body ++ parametersText list := by
      rw [List.append_cons, List.drop_left']
      simp only [List.length_append, List.length_cons, List.length_nil]
    have hdistinct := h.distinct
    simp only [Disposition.entries, hp] at hdistinct
    have hloop := parameterLoop_text hp'
      (fun q hq => hwf q (List.mem_cons_of_mem _ hq)) (l := []) (by simpa [Function.comp_def] using hdistinct)
      (Nat.lt_succ_self _)
    simp only [parameters, htext, hascii, hfind, beyond, hdrop, upTo, List.take_left, hloop, Option.map_some,
      trim_pad_right hp'.before, trim_bare (isToken_bare htok), h.main, List.nil_append, Disposition.entries, hp]

lemma foldlM_formParameter {entries : List (Bytes × Bytes)} (hd : (entries.map Prod.fst).Nodup)
    (hp : ascii "filename*" ∉ entries.map Prod.fst) (event : Event) (named : Bool) :
    entries.foldlM formParameter (event, named) =
      some ({ event with
        name := (entries.lookup (ascii "name")).getD event.name
        filename := (entries.lookup (ascii "filename")).or event.filename },
        named || (entries.lookup (ascii "name")).isSome) := by
  induction entries generalizing event named with
  | nil => simp
  | cons entry entries ih =>
    obtain ⟨key, value⟩ := entry
    simp only [List.map_cons, List.nodup_cons, List.mem_cons, not_or] at hd hp
    have hnone (name : Bytes) (h : key = name) : entries.lookup name = none := by
      rw [List.lookup_eq_none_iff]
      intro p hpmem
      have : p.1 ≠ key := fun heq => hd.1 (heq ▸ List.mem_map_of_mem hpmem)
      rw [← h]
      simpa using fun heq : key = p.1 => this heq.symm
    rw [List.foldlM_cons]
    simp only [formParameter]
    by_cases hname : key = ascii "name"
    · subst hname
      simp only [beq_self_eq_true, ↓reduceIte, Option.bind_eq_bind, Option.bind_some, ih hd.2 hp.2,
        hnone (ascii "name") rfl, List.lookup_cons]
      simp [show (ascii "filename" == ascii "name") = false by decide]
    · have hname' : (key == ascii "name") = false := by simpa using hname
      have hname'' : (ascii "name" == key) = false := by simpa using fun h : ascii "name" = key => hname h.symm
      by_cases hfile : key = ascii "filename"
      · subst hfile
        simp only [hname', beq_self_eq_true, Bool.false_eq_true, ↓reduceIte, Option.bind_eq_bind, Option.bind_some,
          ih hd.2 hp.2, hnone (ascii "filename") rfl, List.lookup_cons, hname'']
        simp
      · have hfile' : (key == ascii "filename") = false := by simpa using hfile
        have hfile'' : (ascii "filename" == key) = false := by simpa using fun h : ascii "filename" = key => hfile h.symm
        have hstar : (key == ascii "filename*") = false := by simpa using fun h : key = ascii "filename*" => hp.1 h.symm
        simp only [hname', hfile', hstar, Bool.false_eq_true, ↓reduceIte, Option.bind_eq_bind, Option.bind_some,
          ih hd.2 hp.2, List.lookup_cons, hname'', hfile'']

lemma formData_text (h : d.Wf) (event : Event) :
    formData event d.text = some { event with
      name := (d.entries.lookup (ascii "name")).getD event.name
      filename := (d.entries.lookup (ascii "filename")).or event.filename } := by
  simp only [formData, parameters_text h, foldlM_formParameter h.distinct h.plain, bne_self_eq_false, Bool.false_eq_true,
    ↓reduceIte, h.named, Bool.or_true]

end Disposition

section Fields

-- `name : pad value pad`
structure Field where
  name : Bytes
  before : Bytes
  value : Bytes
  after : Bytes

structure Field.Wf (f : Field) : Prop where
  name : isToken f.name = true
  before : Blanks f.before
  value : validHeaderValue f.value = true
  bare : Bare f.value
  after : Blanks f.after

def Field.key (f : Field) : Bytes := f.name.map lower

def Field.line (f : Field) : Bytes := f.name ++ (58 :: (f.before ++ f.value ++ f.after))

variable {f : Field} {fields : List Field}

lemma parseHeader_line (h : f.Wf) : parseHeader f.line = some (f.key, f.value) := by
  have hcolon : (58 : Byte) ∉ f.name := token_not_mem h.name (by decide)
  have hascii : ascii ":" = [58] := by decide
  have hfind := find_separator hcolon (f.before ++ f.value ++ f.after)
  have hdrop : (f.name ++ 58 :: (f.before ++ f.value ++ f.after)).drop (f.name.length + 1) =
      f.before ++ f.value ++ f.after := by
    rw [List.append_cons, List.drop_left']
    simp
  simp only [parseHeader, Field.line, hascii, hfind, List.take_left, h.name, hdrop, trim_pad h.before h.after h.bare,
    h.value, Field.key]
  rfl

lemma line_no_cr (h : f.Wf) : (13 : Byte) ∉ f.line := by
  simp only [Field.line, List.mem_append, List.mem_cons, not_or]
  refine ⟨token_not_mem h.name (by decide), by decide, ⟨blanks_not_mem h.before (by decide), fun hmem => ?_⟩,
    blanks_not_mem h.after (by decide)⟩
  have hv := h.value
  simp only [validHeaderValue, List.all_eq_true] at hv
  exact absurd (hv 13 hmem) (by decide)

lemma line_ne_nil : f.line ≠ [] := by simp [Field.line]

def fieldLines : List Field → Bytes
  | [] => []
  | [f] => f.line
  | f :: g :: rest => f.line ++ (crlf ++ fieldLines (g :: rest))

lemma find_pass {c : Byte} {p x : Bytes} (h : c ∉ x) (y : Bytes) :
    find (c :: p) (x ++ y) = (find (c :: p) y).map (· + x.length) := by
  induction x with
  | nil => simp
  | cons b x ih =>
    simp only [List.mem_cons, not_or] at h
    rw [List.cons_append, find, if_neg, ih h.2, Option.map_map]
    · rfl
    · rw [List.isPrefixOf_iff_prefix, List.cons_prefix_cons]
      exact fun hp => h.1 hp.1

lemma find_here {pattern : Bytes} (y : Bytes) : find pattern (pattern ++ y) = some 0 :=
  find_eq_some (Nat.zero_le _) (by simp) (by simp)

lemma find_line {x : Bytes} (h : (13 : Byte) ∉ x) (y : Bytes) : find crlf (x ++ (crlf ++ y)) = some x.length := by
  rw [crlf, find_pass h, ← crlf, find_here]
  simp

lemma find_last_line {x : Bytes} (h : (13 : Byte) ∉ x) : find crlf x = none := by
  have := find_pass (p := [10]) h []
  simpa [crlf, find] using this

lemma find_block (hne : fields ≠ []) (h : ∀ g ∈ fields, g.Wf) (y : Bytes) :
    find (crlf ++ crlf) (fieldLines fields ++ (crlf ++ crlf ++ y)) = some (fieldLines fields).length := by
  induction fields with
  | nil => exact absurd rfl hne
  | cons f fields ih =>
    have hf := line_no_cr (h f (by simp))
    cases fields with
    | nil =>
      rw [fieldLines]
      have := find_pass (p := [10, 13, 10]) hf (crlf ++ crlf ++ y)
      rw [show (13 : Byte) :: [10, 13, 10] = crlf ++ crlf from rfl, find_here] at this
      rw [this]
      simp
    | cons g fields =>
      have hg : fieldLines (g :: fields) ≠ [] := by
        cases fields <;> simp [fieldLines, line_ne_nil]
      have ih := ih (by simp) fun k hk => h k (List.mem_cons_of_mem _ hk)
      have hcr := line_no_cr (h g (by simp))
      obtain ⟨b, rest, hb, hb13⟩ : ∃ b rest, fieldLines (g :: fields) = b :: rest ∧ b ≠ 13 := by
        cases hl : g.line with
        | nil => exact absurd hl line_ne_nil
        | cons b tail =>
          have hne13 : b ≠ 13 := by
            rintro rfl
            rw [hl] at hcr
            simp at hcr
          cases fields with
          | nil => exact ⟨b, tail, by rw [fieldLines, hl], hne13⟩
          | cons k fields => exact ⟨b, tail ++ (crlf ++ fieldLines (k :: fields)), by rw [fieldLines, hl]; rfl, hne13⟩
      have hpass := find_pass (p := [10, 13, 10]) hf (crlf ++ (fieldLines (g :: fields) ++ (crlf ++ crlf ++ y)))
      rw [show (13 : Byte) :: [10, 13, 10] = crlf ++ crlf from rfl] at hpass
      have hskip : find (crlf ++ crlf) (crlf ++ (fieldLines (g :: fields) ++ (crlf ++ crlf ++ y))) =
          (find (crlf ++ crlf) (fieldLines (g :: fields) ++ (crlf ++ crlf ++ y))).map (· + 2) := by
        have h1 : (crlf ++ crlf).isPrefixOf (13 :: 10 :: (fieldLines (g :: fields) ++ (crlf ++ crlf ++ y))) = false := by
          rw [hb]
          simp [crlf, List.isPrefixOf, Ne.symm hb13]
        have h2 : (crlf ++ crlf).isPrefixOf (10 :: (fieldLines (g :: fields) ++ (crlf ++ crlf ++ y))) = false := by
          simp [crlf, List.isPrefixOf]
        rw [show crlf ++ (fieldLines (g :: fields) ++ (crlf ++ crlf ++ y)) =
          13 :: 10 :: (fieldLines (g :: fields) ++ (crlf ++ crlf ++ y)) from rfl, find, h1, find, h2]
        simp [Option.map_map, Function.comp_def]
      rw [fieldLines, List.append_assoc, List.append_assoc, hpass, hskip, ih]
      simp only [Option.map_some, List.length_append, crlf, List.length_cons, List.length_nil, Option.some.injEq]
      omega

lemma headerLines_fields {m n : ℕ} (h : ∀ g ∈ fields, g.Wf) (hfuel : fields.length ≤ n) (s : HeaderState) :
    headerLines m n (fieldLines fields) s =
      fields.foldlM (fun s g => headerField m s g.key g.value) s := by
  induction fields generalizing n s with
  | nil =>
    cases n <;> rfl
  | cons f fields ih =>
    obtain ⟨n, rfl⟩ : ∃ k, n = k + 1 := ⟨n - 1, by simp only [List.length_cons] at hfuel; omega⟩
    have hf := h f (by simp)
    have hcr := line_no_cr hf
    have ih := fun s => ih (n := n) (fun k hk => h k (List.mem_cons_of_mem _ hk))
      (by simp only [List.length_cons] at hfuel; omega) s
    rw [List.foldlM_cons]
    have hgo {block rest : Bytes} (hempty : block.isEmpty = false) (hline : upTo block (find crlf block) = f.line)
        (hrest : beyond block 2 (find crlf block) = rest) (hr : rest = fieldLines fields) :
        headerLines m (n + 1) block s = (headerField m s f.key f.value).bind
            fun s => fields.foldlM (fun s g => headerField m s g.key g.value) s := by
      simp only [headerLines, hempty, hline, hrest, hr, parseHeader_line hf, Bool.false_eq_true, ↓reduceIte]
      congr 1
      funext s
      exact ih s
    cases fields with
    | nil =>
      have hbeyond : beyond f.line 2 (find crlf f.line) = [] := by
        rw [find_last_line hcr]
        rfl
      exact hgo (by simp [fieldLines, line_ne_nil]) (by rw [fieldLines, find_last_line hcr]; rfl) hbeyond rfl
    | cons g fields =>
      have hfind := find_line hcr (fieldLines (g :: fields))
      refine hgo (by simp [fieldLines, line_ne_nil]) (by rw [fieldLines, hfind, upTo, List.take_left])
        (by rw [fieldLines, hfind]) ?_
      simp only [beyond]
      rw [← List.append_assoc, List.drop_left' (by simp [crlf])]

end Fields

section Parts

structure Part where
  fields : List Field
  disposition : Disposition
  payload : Bytes

def Field.entry (f : Field) : Bytes × Bytes := (f.key, f.value)

structure Part.Wf (part : Part) : Prop where
  fields : ∀ f ∈ part.fields, f.Wf
  disposition : part.disposition.Wf
  one : (part.fields.filter fun f => f.key == ascii "content-disposition").map Field.value = [part.disposition.text]
  contentType : (part.fields.filter fun f => f.key == ascii "content-type").length ≤ 1
  encoding : ∀ f ∈ part.fields, f.key ≠ ascii "content-transfer-encoding"

def Part.event (part : Part) (index : ℕ) : Event where
  partIndex := index
  name := (part.disposition.entries.lookup (ascii "name")).getD []
  filename := part.disposition.entries.lookup (ascii "filename")
  contentType := ((part.fields.map Field.entry).lookup (ascii "content-type")).getD []
  headers := part.fields.map Field.entry

variable {maxHeaders : ℕ} {d : Disposition}

lemma foldlM_headerField {fields : List Field} (hd : d.Wf) {s : HeaderState}
    (hone : (fields.filter fun f => f.key == ascii "content-disposition").map Field.value =
      if s.disposition then [] else [d.text])
    (htype : (fields.filter fun f => f.key == ascii "content-type").length ≤ if s.contentType then 0 else 1)
    (henc : ∀ f ∈ fields, f.key ≠ ascii "content-transfer-encoding")
    (hmax : s.event.headers.length + fields.length ≤ maxHeaders) :
    ∃ found, fields.foldlM (fun s f => headerField maxHeaders s f.key f.value) s = .ok
      { event := { s.event with
          name := if s.disposition then s.event.name else (d.entries.lookup (ascii "name")).getD s.event.name
          filename :=
            if s.disposition then s.event.filename else (d.entries.lookup (ascii "filename")).or s.event.filename
          contentType := ((fields.map Field.entry).lookup (ascii "content-type")).getD s.event.contentType
          headers := s.event.headers ++ fields.map Field.entry }
        disposition := true
        contentType := found } := by
  induction fields generalizing s with
  | nil =>
    cases hs : s.disposition with
    | false => simp [hs] at hone
    | true =>
      refine ⟨s.contentType, ?_⟩
      obtain ⟨event, disposition, contentType⟩ := s
      obtain rfl : disposition = true := hs
      simp
      rfl
  | cons f fields ih =>
    have henc' : ∀ g ∈ fields, g.key ≠ ascii "content-transfer-encoding" := fun g hg => henc g (List.mem_cons_of_mem _ hg)
    have hkey : (f.key == ascii "content-transfer-encoding") = false := by simpa using henc f (by simp)
    have hfull : ¬ s.event.headers.length = maxHeaders := by
      simp only [List.length_cons] at hmax
      omega
    rw [List.foldlM_cons]
    by_cases hdisp : f.key = ascii "content-disposition"
    · -- This is the disposition, and it is the only one.
      have hcond : (f.key == ascii "content-disposition") = true := by simpa using hdisp
      have htypeKey : (f.key == ascii "content-type") = false := by rw [hdisp]; decide
      have htypeKey' : (ascii "content-type" == f.key) = false := by rw [hdisp]; decide
      rw [List.filter_cons, if_pos hcond, List.map_cons] at hone
      rw [List.filter_cons, if_neg (by simp [htypeKey])] at htype
      cases hs : s.disposition with
      | true => simp [hs] at hone
      | false =>
        simp only [hs, Bool.false_eq_true, ↓reduceIte, List.cons.injEq] at hone
        have hfield : headerField maxHeaders s f.key f.value = .ok
            { s with
              disposition := true
              event := { s.event with
                name := (d.entries.lookup (ascii "name")).getD s.event.name
                filename := (d.entries.lookup (ascii "filename")).or s.event.filename
                headers := s.event.headers ++ [(f.key, f.value)] } } := by
          simp only [headerField, hfull, ↓reduceIte, hcond, hs, Bool.false_eq_true, hone.1, formData_text hd]
        obtain ⟨found, ih⟩ := ih (s := { s with
              disposition := true
              event := { s.event with
                name := (d.entries.lookup (ascii "name")).getD s.event.name
                filename := (d.entries.lookup (ascii "filename")).or s.event.filename
                headers := s.event.headers ++ [(f.key, f.value)] } }) (by simpa using hone.2) htype henc' (by
            simp only [List.length_append, List.length_cons, List.length_nil] at hmax ⊢
            omega)
        refine ⟨found, ?_⟩
        rw [hfield]
        change (fields.foldlM (fun s f => headerField maxHeaders s f.key f.value) _ : Except ErrorCode HeaderState) = _
        rw [ih]
        simp [Field.entry, htypeKey', List.lookup_cons]
    · have hcond : (f.key == ascii "content-disposition") = false := by simpa using hdisp
      rw [List.filter_cons, if_neg (by simp [hcond])] at hone
      by_cases hct : f.key = ascii "content-type"
      · have htypeKey : (f.key == ascii "content-type") = true := by simpa using hct
        rw [List.filter_cons, if_pos htypeKey, List.length_cons] at htype
        cases hs : s.contentType with
        | true => simp [hs] at htype
        | false =>
          simp only [hs, Bool.false_eq_true, ↓reduceIte] at htype
          have hfield : headerField maxHeaders s f.key f.value = .ok
              { s with
                contentType := true
                event := { s.event with
                  contentType := f.value, headers := s.event.headers ++ [(f.key, f.value)] } } := by
            simp only [headerField, hfull, ↓reduceIte, hcond, htypeKey, hs, Bool.false_eq_true]
          obtain ⟨found, ih⟩ := ih (s := { s with
                contentType := true
                event := { s.event with
                  contentType := f.value, headers := s.event.headers ++ [(f.key, f.value)] } }) hone
            (by simp only [↓reduceIte]; omega) henc' (by
              simp only [List.length_append, List.length_cons, List.length_nil] at hmax ⊢
              omega)
          have hlookup : (fields.map Field.entry).lookup (ascii "content-type") = none := by
            rw [List.lookup_eq_none_iff]
            intro entry hmem
            obtain ⟨g, hg, rfl⟩ := List.mem_map.mp hmem
            have hnil : fields.filter (fun f => f.key == ascii "content-type") = [] := List.length_eq_zero_iff.mp (by omega)
            have := List.filter_eq_nil_iff.mp hnil g hg
            have hne : g.key ≠ ascii "content-type" := by simpa using this
            simpa [Field.entry] using fun h : ascii "content-type" = g.key => hne h.symm
          refine ⟨found, ?_⟩
          rw [hfield]
          change (fields.foldlM (fun s f => headerField maxHeaders s f.key f.value) _ : Except ErrorCode HeaderState) = _
          rw [ih]
          have hself : (ascii "content-type" == f.key) = true := by simpa using hct.symm
          simp [Field.entry, hlookup, List.lookup_cons, hself]
      · have htypeKey : (f.key == ascii "content-type") = false := by simpa using hct
        have htypeKey' : (ascii "content-type" == f.key) = false := by simpa using fun h : ascii "content-type" = f.key => hct h.symm
        rw [List.filter_cons, if_neg (by simp [htypeKey])] at htype
        have hfield : headerField maxHeaders s f.key f.value = .ok
            { s with event := { s.event with headers := s.event.headers ++ [(f.key, f.value)] } } := by
          simp only [headerField, hfull, ↓reduceIte, hcond, htypeKey, hkey, Bool.false_eq_true]
        obtain ⟨found, ih⟩ := ih (s := { s with event := { s.event with
            headers := s.event.headers ++ [(f.key, f.value)] } }) hone htype henc' (by
          simp only [List.length_append, List.length_cons, List.length_nil] at hmax ⊢
          omega)
        refine ⟨found, ?_⟩
        rw [hfield]
        change (fields.foldlM (fun s f => headerField maxHeaders s f.key f.value) _ : Except ErrorCode HeaderState) = _
        rw [ih]
        simp [Field.entry, htypeKey', List.lookup_cons]

lemma fields_length_le (fields : List Field) : fields.length ≤ (fieldLines fields).length := by
  induction fields with
  | nil => simp
  | cons f fields ih =>
    have hpos : 0 < f.line.length := List.length_pos_iff.mpr line_ne_nil
    cases fields with
    | nil =>
      simp only [fieldLines, List.length_cons, List.length_nil]
      omega
    | cons g fields =>
      simp only [fieldLines, List.length_cons, List.length_append] at ih ⊢
      omega

lemma headers_part {part : Part} (h : part.Wf) {s : State} (hmax : part.fields.length ≤ s.options.maxHeaders) :
    s.headers (fieldLines part.fields) = .ok (part.event (s.part + 1)) := by
  obtain ⟨found, hfold⟩ := foldlM_headerField h.disposition
    (s := { event := { partIndex := s.part + 1 } }) h.one h.contentType h.encoding (by simpa using hmax)
  have hlines := headerLines_fields (m := s.options.maxHeaders) h.fields (fields_length_le part.fields)
    { event := { partIndex := s.part + 1 } }
  rw [hfold] at hlines
  simp [State.headers, hlines, Part.event]

end Parts

end ServerCore.Web.Multipart
