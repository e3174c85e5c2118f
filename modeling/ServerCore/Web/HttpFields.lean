import ServerCore.Web.HttpMessage

/-! The request line and the fields of an accepted header block. -/

namespace ServerCore.Web

open ServerCore.Core

section FieldValues

variable (name : String) (headers : List (Bytes × Bytes))

@[simp] lemma fieldValues_nil : fieldValues name [] = [] := rfl

lemma fieldValues_cons (field : Bytes × Bytes) :
    fieldValues name (field :: headers) =
      if field.1 = ascii name then field.2 :: fieldValues name headers else fieldValues name headers := by
  unfold fieldValues
  by_cases h : field.1 = ascii name <;> simp [h]

lemma fieldValues_append (more : List (Bytes × Bytes)) :
    fieldValues name (headers ++ more) = fieldValues name headers ++ fieldValues name more := by
  simp [fieldValues]

lemma fieldValues_concat (field : Bytes × Bytes) :
    fieldValues name (headers ++ [field]) =
      if field.1 = ascii name then fieldValues name headers ++ [field.2] else fieldValues name headers := by
  rw [fieldValues_append, fieldValues_cons]
  split <;> simp

end FieldValues

lemma scheme_bytes {scheme : Bytes}
    (h : equalInsensitive scheme (ascii "http") = true ∨ equalInsensitive scheme (ascii "https") = true) :
    scheme ≠ [] ∧ ∀ b ∈ scheme, b ≠ 58 ∧ b ≠ 47 ∧ b ≠ 42 := by
  have hm : ∃ text, scheme.map lower = text ∧ text ≠ [] ∧
      ∀ b : Byte, lower b ∈ text → b ≠ 58 ∧ b ≠ 47 ∧ b ≠ 42 := by
    rcases h with h | h
    · refine ⟨_, eq_of_beq h, by decide, fun b hb => ?_⟩
      refine ⟨?_, ?_, ?_⟩ <;> rintro rfl <;> revert hb <;> decide
    · refine ⟨_, eq_of_beq h, by decide, fun b hb => ?_⟩
      refine ⟨?_, ?_, ?_⟩ <;> rintro rfl <;> revert hb <;> decide
  obtain ⟨text, ht, hne, hb⟩ := hm
  refine ⟨?_, fun b hmem => hb b (ht ▸ List.mem_map_of_mem hmem)⟩
  rintro rfl
  exact hne ht.symm

namespace HttpParser

section Target

variable {target authority path origin : Bytes}

lemma findFirst_path (ha : ∀ b ∈ authority, b ≠ 47 ∧ b ≠ 63)
    (hp : path = [] ∨ ∃ rest, path = 47 :: rest ∨ path = 63 :: rest) :
    upTo (authority ++ path) (findFirst (fun b => b == 47 || b == 63) (authority ++ path)) = authority := by
  have hn : List.findIdx? (fun b : Byte => b == 47 || b == 63) authority = none := by
    rw [List.findIdx?_eq_none_iff]
    intro b hb
    simp [ha b hb]
  rw [findFirst, List.findIdx?_append, hn]
  rcases hp with rfl | ⟨rest, rfl | rfl⟩ <;> simp [upTo, List.findIdx?_cons]

lemma findFirst_split (rest : Bytes) :
    ∃ authority path, rest = authority ++ path ∧
      upTo rest (findFirst (fun b => b == 47 || b == 63) rest) = authority ∧
      (match findFirst (fun b => b == 47 || b == 63) rest with
        | some n => rest.drop n
        | none => []) = path ∧
      (∀ b ∈ authority, b ≠ 47 ∧ b ≠ 63) ∧ (path = [] ∨ ∃ more, path = 47 :: more ∨ path = 63 :: more) := by
  unfold findFirst
  cases hf : List.findIdx? (fun b : Byte => b == 47 || b == 63) rest with
  | none =>
    refine ⟨rest, [], by simp, rfl, rfl, fun b hb => ?_, .inl rfl⟩
    simpa using List.findIdx?_eq_none_iff.mp hf b hb
  | some n =>
    obtain ⟨hn, hat, hbefore⟩ := List.findIdx?_eq_some_iff_getElem.mp hf
    refine ⟨rest.take n, rest.drop n, (List.take_append_drop n rest).symm, rfl, rfl, fun b hb => ?_, .inr ?_⟩
    · obtain ⟨i, hi, rfl⟩ := List.mem_iff_getElem.mp hb
      have hi' : i < n := by
        rw [List.length_take] at hi
        omega
      simpa using hbefore i hi'
    · refine ⟨rest.drop (n + 1), ?_⟩
      rw [List.drop_eq_getElem_cons hn]
      have hat' : rest[n] = 47 ∨ rest[n] = 63 := by simpa using hat
      exact hat'.imp (by rw [·]) (by rw [·])

lemma find_scheme {scheme r : Bytes} (hb : ∀ b ∈ scheme, b ≠ 58) :
    find (ascii "://") (scheme ++ (ascii "://" ++ r)) = some scheme.length := by
  apply find_eq_some
  · simp
  · rw [List.drop_left]
    exact List.prefix_append _ _
  · intro j hj hp
    obtain ⟨tail, ht⟩ := hp
    rw [List.drop_append_of_le_length hj.le, List.drop_eq_getElem_cons hj] at ht
    have hc : (58 : Byte) = scheme[j] := (List.cons.inj ht).1
    exact hb _ (List.getElem_mem hj) hc.symm

lemma startsWith_slash (text : Bytes) : startsWith text (ascii "/") = true ↔ ∃ rest, text = 47 :: rest := by
  have ha : ascii "/" = [47] := rfl
  rw [startsWith, ha, List.isPrefixOf_iff_prefix]
  constructor
  · rintro ⟨rest, rfl⟩
    exact ⟨rest, rfl⟩
  · rintro ⟨rest, rfl⟩
    exact ⟨rest, rfl⟩

lemma splitTarget_cases (h : splitTarget target = some (authority, origin)) :
    (authority = [] ∧ origin = target ∧ (target = ascii "*" ∨ ∃ rest, target = 47 :: rest)) ∨
      ∃ path, AbsoluteForm target authority path ∧ authority ≠ [] ∧
        (∀ b ∈ authority, b ∉ ascii ",@\\") ∧ ∃ rest, origin = 47 :: rest := by
  unfold splitTarget at h
  split at h
  · right
    cases hf : find (ascii "://") target with
    | none => simp [hf] at h
    | some n =>
      simp only [hf] at h
      split at h
      · cases h
      rename_i hscheme
      obtain ⟨front, path, hrest, hup, hpath, hfront, hpath'⟩ := findFirst_split (target.drop (n + 3))
      have h' : (if front.isEmpty || front.any (fun b => (ascii ",@\\").contains b) then none
          else some (front, if startsWith path (ascii "/") then path else ascii "/" ++ path)) =
          some (authority, origin) := by
        rw [← hup, ← hpath]
        exact h
      split at h'
      · cases h'
      rename_i hauth
      simp only [Option.some.injEq, Prod.mk.injEq] at h'
      obtain ⟨rfl, rfl⟩ := h'
      simp only [Bool.or_eq_true, not_or, Bool.not_eq_true, List.any_eq_false] at hauth
      have hs := find_split hf
      have hlen : (ascii "://").length = 3 := rfl
      rw [hlen, hrest] at hs
      refine ⟨path, ⟨⟨target.take n, hs, ?_⟩, hfront, hpath'⟩, ?_, ?_, ?_⟩
      · simpa only [Bool.and_eq_true, Bool.not_eq_true', not_and_or, Bool.not_eq_false] using hscheme
      · intro he
        simp [he] at hauth
      · intro b hb hmem
        have hc := hauth.2 b hb
        rw [List.contains_iff_mem.mpr hmem] at hc
        cases hc
      · split
        · rename_i hslash
          exact (startsWith_slash path).mp hslash
        · exact ⟨path, rfl⟩
  · rename_i hform
    split at h
    · cases h
    rename_i hne
    simp only [Option.some.injEq, Prod.mk.injEq] at h
    obtain ⟨rfl, rfl⟩ := h
    refine .inl ⟨rfl, rfl, ?_⟩
    by_cases hstar : target = ascii "*"
    · exact .inl hstar
    · right
      rw [← startsWith_slash]
      by_contra hslash
      apply hform
      simp_all

lemma absolute_not_origin (h : AbsoluteForm target authority path) :
    target ≠ ascii "*" ∧ ¬ ∃ rest, target = 47 :: rest := by
  obtain ⟨⟨scheme, rfl, hs⟩, -, -⟩ := h
  obtain ⟨hne, hb⟩ := scheme_bytes hs
  cases scheme with
  | nil => exact absurd rfl hne
  | cons b scheme =>
    have hb' := hb b (by simp)
    constructor
    · intro h
      exact hb'.2.2 (List.cons.inj h).1
    · rintro ⟨rest, h⟩
      exact hb'.2.1 (List.cons.inj h).1

lemma absolute_authority_unique {authority' path' : Bytes} (h : AbsoluteForm target authority path)
    (h' : AbsoluteForm target authority' path') : authority = authority' := by
  obtain ⟨⟨scheme, ht, hs⟩, ha, hp⟩ := h
  obtain ⟨⟨scheme', ht', hs'⟩, ha', hp'⟩ := h'
  have hf := find_scheme (r := authority ++ path) fun b hb => ((scheme_bytes hs).2 b hb).1
  have hf' := find_scheme (r := authority' ++ path') fun b hb => ((scheme_bytes hs').2 b hb).1
  rw [← ht] at hf
  rw [← ht', hf] at hf'
  have hl : scheme.length = scheme'.length := by simpa using hf'
  rw [ht] at ht'
  have hr := (List.append_inj ht' hl).2
  have hr' : authority ++ path = authority' ++ path' := List.append_cancel_left hr
  rw [← findFirst_path ha hp, hr', findFirst_path ha' hp']

end Target

lemma parseRequestLine_ok {h h' : Head} {line authority : Bytes}
    (ho : parseRequestLine h line = .ok (h', authority)) :
    ∃ method target version origin,
      line = method ++ ascii " " ++ target ++ ascii " " ++ version ∧ isToken method = true ∧
      (version = ascii "HTTP/1.1" ∨ version = ascii "HTTP/1.0") ∧
      (∀ b ∈ target, 33 ≤ b ∧ b < 127 ∧ b ≠ 35) ∧ splitTarget target = some (authority, origin) ∧
      h' = { h with
        http10 := version == ascii "HTTP/1.0"
        request := { h.request with target := origin, method := method } } := by
  unfold parseRequestLine at ho
  cases hf : find (ascii " ") line with
  | none => simp [hf] at ho
  | some n =>
    cases hf' : find (ascii " ") (line.drop (n + 1)) with
    | none => simp [hf, hf'] at ho
    | some k =>
      simp only [hf, hf', Option.map_some] at ho
      split at ho
      · cases ho
      rename_i hmethod
      split at ho
      · cases ho
      rename_i hversion
      have hk : k + (n + 1) - n - 1 = k := by omega
      rw [hk] at ho
      split at ho
      · cases ho
      rename_i hbytes
      split at ho
      · cases ho
      rename_i authority' origin hsplit
      simp only [Except.ok.injEq, Prod.mk.injEq] at ho
      obtain ⟨rfl, rfl⟩ := ho
      have hlen : (ascii " ").length = 1 := rfl
      have hs := find_split hf
      have hs' := find_split hf'
      rw [hlen, List.drop_drop] at hs'
      rw [hlen, hs'] at hs
      refine ⟨_, _, line.drop (k + (n + 1) + 1), origin, ?_, ?_, ?_, ?_, hsplit, rfl⟩
      · have hadd : n + 1 + (k + 1) = k + (n + 1) + 1 := by omega
        rw [hadd] at hs
        simpa only [List.append_assoc] using hs
      · simp only [Bool.or_eq_true, not_or, Bool.not_eq_true', Bool.not_eq_false] at hmethod
        exact hmethod.2
      · by_cases h₁ : line.drop (k + (n + 1) + 1) = ascii "HTTP/1.1"
        · exact .inl h₁
        · exact .inr (by_contra fun h₀ => hversion ⟨h₁, h₀⟩)
      · intro b hb
        simp only [List.any_eq_true, not_exists, not_and, Bool.not_eq_true] at hbytes
        have hno := hbytes b hb
        simp only [Bool.or_eq_false_iff, decide_eq_false_iff_not, beq_eq_false_iff_ne] at hno
        exact ⟨UInt8.not_lt.mp hno.1.1, UInt8.not_le.mp hno.1.2, hno.2⟩

end HttpParser

structure FieldOk (field : Bytes × Bytes) : Prop where
  name : isToken field.1 = true
  lower : field.1.map lower = field.1
  value : ∀ b ∈ field.2, (32 ≤ b ∨ b = 9) ∧ b ≠ 127

structure HostValue (v : Bytes) : Prop where
  nonempty : v ≠ []
  bytes : ∀ b ∈ v, b ∉ ascii " \t,/@?#\\"

structure LengthValue (v : Bytes) (n : ℕ) : Prop where
  nonempty : v ≠ []
  digits : ∀ b ∈ v, isDigit b = true
  value : n = numeral 10 v

lemma parseHeader_ok {line : Bytes} {field : Bytes × Bytes} (h : parseHeader line = some field) :
    FieldOk field := by
  unfold parseHeader at h
  split at h
  · cases h
  rename_i colon _
  split at h
  · cases h
  rename_i htoken
  dsimp only at h
  split at h
  · cases h
  rename_i hvalue
  obtain rfl := Option.some.inj h
  simp only [Bool.not_eq_true', Bool.not_eq_false] at htoken hvalue
  refine ⟨isToken_lower htoken, ?_, fun b hb => ?_⟩
  · rw [List.map_map]
    congr 1
    funext b
    exact lower_lower b
  · have hc := List.all_eq_true.mp hvalue b hb
    simp only [isControl, Bool.not_eq_true', Bool.or_eq_false_iff, Bool.and_eq_false_iff,
      decide_eq_false_iff_not, bne_eq_false_iff_eq, beq_eq_false_iff_ne] at hc
    exact ⟨hc.1.imp UInt8.not_lt.mp id, hc.2⟩

namespace HttpParser

structure Collected (maxBody : ℕ) (h : Head) (flags : HeaderFlags) : Prop where
  fields : ∀ field ∈ h.request.headers, FieldOk field
  host : (flags.haveHost = false ∧ fieldValues "host" h.request.headers = []) ∨
    (flags.haveHost = true ∧ ∃ v, fieldValues "host" h.request.headers = [v] ∧ HostValue v)
  length : (flags.haveLength = false ∧ fieldValues "content-length" h.request.headers = [] ∧ h.remaining = 0) ∨
    (flags.haveLength = true ∧ h.remaining ≤ maxBody ∧
      ∃ v, fieldValues "content-length" h.request.headers = [v] ∧ LengthValue v h.remaining)
  transfer : (flags.haveTransfer = false ∧ fieldValues "transfer-encoding" h.request.headers = [] ∧
      flags.transferFailure = 0) ∨
    (flags.haveTransfer = true ∧ ∃ v, fieldValues "transfer-encoding" h.request.headers = [v] ∧
      (flags.transferFailure = 0 → equalInsensitive v (ascii "chunked") = true))

lemma transferStatus_ne_zero (value : Bytes) : transferStatus value ≠ 0 := by
  unfold transferStatus
  dsimp only
  split <;> decide

section Field

variable {maxBody : ℕ} {h h' : Head} {flags flags' : HeaderFlags} {name value : Bytes}

inductive Accepts (maxBody : ℕ) (h : Head) (flags : HeaderFlags) (name value : Bytes) :
    Head → HeaderFlags → Prop
  | host (hn : name = ascii "host") (hf : flags.haveHost = false) (hv : HostValue value) :
      Accepts maxBody h flags name value h { flags with haveHost := true }
  | length {n : ℕ} (hn : name = ascii "content-length") (hf : flags.haveLength = false)
      (hv : LengthValue value n) (hb : n ≤ maxBody) :
      Accepts maxBody h flags name value { h with remaining := n } { flags with haveLength := true }
  | transfer {failure : ℕ} (hn : name = ascii "transfer-encoding") (hf : flags.haveTransfer = false)
      (hv : failure = 0 → equalInsensitive value (ascii "chunked") = true) :
      Accepts maxBody h flags name value h
        { flags with haveTransfer := true, transferFailure := failure }
  | other {expect : Bool} (hh : name ≠ ascii "host") (hl : name ≠ ascii "content-length")
      (ht : name ≠ ascii "transfer-encoding") :
      Accepts maxBody h flags name value h { flags with haveExpect := expect }

lemma parseHeaderField_accepts
    (ho : parseHeaderField maxBody h flags name value = .ok (h', flags')) :
    Accepts maxBody h flags name value h' flags' := by
  unfold parseHeaderField at ho
  split at ho
  · rename_i hn
    split at ho
    · cases ho
    rename_i hbad
    obtain ⟨rfl, rfl⟩ := Prod.mk.inj (Except.ok.inj ho)
    simp only [Bool.or_eq_true, not_or, Bool.not_eq_true, List.any_eq_false] at hbad
    refine .host hn hbad.1.1 ⟨?_, fun b hb hmem => ?_⟩
    · intro he
      simp [he] at hbad
    · have hc := hbad.2 b hb
      rw [List.contains_iff_mem.mpr hmem] at hc
      cases hc
  rename_i hhost
  split at ho
  · rename_i hn
    split at ho
    · cases ho
    rename_i hbad
    simp only [Bool.or_eq_true, not_or, Bool.not_eq_true, Bool.not_eq_false'] at hbad
    cases hf : fromCharsSize 10 hexDigit value with
    | none => simp [hf] at ho
    | some n =>
      simp only [hf] at ho
      split at ho
      · cases ho
      obtain ⟨rfl, rfl⟩ := Prod.mk.inj (Except.ok.inj ho)
      have hv : numeral 10 value = n := by
        simp only [fromCharsSize, Option.ite_none_right_eq_some, Option.some.injEq] at hf
        exact hf.2
      refine .length hn hbad.1.1 ⟨?_, ?_, hv.symm⟩ (by omega)
      · intro he
        simp [he] at hbad
      · simpa using hbad.2
  rename_i hlength
  split at ho
  · rename_i hn
    split at ho
    · cases ho
    rename_i hbad
    simp only [Bool.or_eq_true, not_or, Bool.not_eq_true] at hbad
    split at ho
    · rename_i hchunked
      obtain ⟨rfl, rfl⟩ := Prod.mk.inj (Except.ok.inj ho)
      exact .transfer hn hbad.1 fun _ => hchunked
    · obtain ⟨rfl, rfl⟩ := Prod.mk.inj (Except.ok.inj ho)
      exact .transfer hn hbad.1 fun he => absurd he (transferStatus_ne_zero value)
  rename_i htransfer
  split at ho
  · split at ho
    · cases ho
    · obtain ⟨rfl, rfl⟩ := Prod.mk.inj (Except.ok.inj ho)
      exact .other hhost hlength htransfer
  split at ho
  · split at ho
    · cases ho
    · obtain ⟨rfl, rfl⟩ := Prod.mk.inj (Except.ok.inj ho)
      exact .other hhost hlength htransfer
  split at ho
  · split at ho
    · cases ho
    · obtain ⟨rfl, rfl⟩ := Prod.mk.inj (Except.ok.inj ho)
      exact .other hhost hlength htransfer
  · obtain ⟨rfl, rfl⟩ := Prod.mk.inj (Except.ok.inj ho)
    exact .other hhost hlength htransfer

def Head.store (h : Head) (field : Bytes × Bytes) : Head :=
  { h with request := { h.request with headers := h.request.headers ++ [field] } }

lemma Collected.store (hc : Collected maxBody h flags) (hfield : FieldOk (name, value))
    (ha : Accepts maxBody h flags name value h' flags') :
    Collected maxBody (h'.store (name, value)) flags' := by
  have hfields : ∀ g : Head, g.request = h.request →
      ∀ field ∈ (g.store (name, value)).request.headers, FieldOk field := by
    intro g hg field hmem
    simp only [Head.store, hg, List.mem_append, List.mem_singleton] at hmem
    rcases hmem with hmem | rfl
    · exact hc.fields field hmem
    · exact hfield
  have hvalues : ∀ (g : Head) (text : String), g.request = h.request →
      fieldValues text (g.store (name, value)).request.headers =
        if name = ascii text then fieldValues text h.request.headers ++ [value]
        else fieldValues text h.request.headers := by
    intro g text hg
    rw [Head.store, hg]
    exact fieldValues_concat text h.request.headers (name, value)
  have h₁ : ascii "host" ≠ ascii "content-length" := by decide
  have h₂ : ascii "host" ≠ ascii "transfer-encoding" := by decide
  have h₃ : ascii "content-length" ≠ ascii "transfer-encoding" := by decide
  cases ha with
  | host hn hf hv =>
    subst hn
    refine ⟨hfields _ rfl, .inr ⟨rfl, value, ?_, hv⟩, ?_, ?_⟩
    · rcases hc.host with ⟨-, hh⟩ | ⟨ht, -⟩
      · rw [hvalues _ _ rfl, if_pos rfl, hh, List.nil_append]
      · rw [hf] at ht
        cases ht
    · rw [hvalues _ _ rfl, if_neg h₁]
      exact hc.length
    · rw [hvalues _ _ rfl, if_neg h₂]
      exact hc.transfer
  | @length n hn hf hv hb =>
    subst hn
    refine ⟨hfields _ rfl, ?_, .inr ⟨rfl, hb, value, ?_, hv⟩, ?_⟩
    · rw [hvalues { h with remaining := n } _ rfl, if_neg h₁.symm]
      exact hc.host
    · rcases hc.length with ⟨-, hl, -⟩ | ⟨ht, -⟩
      · rw [hvalues { h with remaining := n } _ rfl, if_pos rfl, hl, List.nil_append]
      · rw [hf] at ht
        cases ht
    · rw [hvalues { h with remaining := n } _ rfl, if_neg h₃]
      exact hc.transfer
  | @transfer failure hn hf hv =>
    subst hn
    refine ⟨hfields _ rfl, ?_, ?_, .inr ⟨rfl, value, ?_, hv⟩⟩
    · rw [hvalues _ _ rfl, if_neg h₂.symm]
      exact hc.host
    · rw [hvalues _ _ rfl, if_neg h₃.symm]
      exact hc.length
    · rcases hc.transfer with ⟨-, hl, -⟩ | ⟨ht, -⟩
      · rw [hvalues _ _ rfl, if_pos rfl, hl, List.nil_append]
      · rw [hf] at ht
        cases ht
  | other hh hl ht =>
    refine ⟨hfields _ rfl, ?_, ?_, ?_⟩
    · rw [hvalues _ _ rfl, if_neg hh]
      exact hc.host
    · rw [hvalues _ _ rfl, if_neg hl]
      exact hc.length
    · rw [hvalues _ _ rfl, if_neg ht]
      exact hc.transfer

lemma Accepts.request (ha : Accepts maxBody h flags name value h' flags') :
    h'.request = h.request ∧ h'.http10 = h.http10 := by
  cases ha <;> exact ⟨rfl, rfl⟩

end Field

lemma parseHeaderLines_ok {maxBody : ℕ} {h h' : Head} {flags flags' : HeaderFlags} {lines : List Bytes}
    (hc : Collected maxBody h flags)
    (ho : parseHeaderLines maxBody h flags lines = .ok (h', flags')) :
    Collected maxBody h' flags' ∧ h'.http10 = h.http10 ∧
      h'.request = { h.request with headers := h.request.headers ++ lines.filterMap parseHeader } := by
  induction lines generalizing h flags with
  | nil =>
    obtain ⟨rfl, rfl⟩ := Prod.mk.inj (Except.ok.inj ho)
    exact ⟨hc, rfl, by simp⟩
  | cons line lines ih =>
    simp only [parseHeaderLines] at ho
    cases hp : parseHeader line with
    | none => simp [hp] at ho
    | some field =>
      obtain ⟨name, value⟩ := field
      simp only [hp] at ho
      split at ho
      · cases ho
      cases hf : parseHeaderField maxBody h flags name value with
      | error e => simp [hf] at ho
      | ok accepted =>
        obtain ⟨g, flags₁⟩ := accepted
        simp only [hf] at ho
        have ha := parseHeaderField_accepts hf
        obtain ⟨hreq, hten⟩ := ha.request
        obtain ⟨hc', hten', hreq'⟩ := ih (hc.store (parseHeader_ok hp) ha) ho
        refine ⟨hc', hten'.trans hten, ?_⟩
        rw [hreq']
        simp [Head.store, hreq, hp]

end HttpParser

end ServerCore.Web
