import ServerCore.Protocol.Message

/-! `ParseMessage` and `SerializeMessage` undo each other. -/

namespace ServerCore.Protocol

open ServerCore.Core ServerCore.Foundations

namespace MessageFields

def values (f : MessageFields) : List JsonValue := f.body.toList ++ f.sequence.toList ++ f.error.toList

def Ordered (f : MessageFields) : Prop := ∀ v ∈ f.values, v.Ordered

def reparsed (f : MessageFields) : MessageFields :=
  ⟨f.type, f.body.map JsonValue.reparsed, f.sequence.map JsonValue.reparsed, f.error.map JsonValue.reparsed⟩

structure Valid (f : MessageFields) : Prop where
  type : f.type ≠ []
  content : f.body ≠ none ∨ f.error ≠ none
  body : ∀ body, f.body = some body → body.isObject = true
  error : ∀ error, f.error = some error → Json.isErrorEnvelope error = true

end MessageFields

namespace Json

variable {charconv : Charconv}

lemma validateFields_ok_iff {f : MessageFields} {code : ErrorCode} : validateFields f code = .ok () ↔ f.Valid := by
  obtain ⟨type, body, sequence, error⟩ := f
  rw [validateFields]
  constructor
  · intro h
    split_ifs at h with htype hcontent hbody herror
    refine ⟨htype, ?_, ?_, ?_⟩
    · cases body <;> cases error <;> simp_all
    · rintro v rfl
      simpa using hbody
    · rintro v rfl
      simpa using herror
  · rintro ⟨htype, hcontent, hbody, herror⟩
    simp only at htype hcontent hbody herror
    rw [if_neg htype, if_neg, if_neg, if_neg]
    · cases error with
      | none => simp
      | some v => simp [herror v rfl]
    · cases body with
      | none => simp
      | some v => simp [hbody v rfl]
    · cases body <;> cases error <;> simp_all

lemma envelope_eq (f : MessageFields) : envelope f =
    (f.body.toList.map fun v => (ascii "body", v)) ++ (f.error.toList.map fun v => (ascii "error", v)) ++
      (f.sequence.toList.map fun v => (ascii "seq", v)) ++ [(ascii "type", .string f.type)] := by
  obtain ⟨type, body, sequence, error⟩ := f
  cases body <;> cases sequence <;> cases error <;> rfl

lemma envelope_sorted (f : MessageFields) : OrderedMap.Sorted (envelope f) := by
  obtain ⟨type, body, sequence, error⟩ := f
  rw [envelope_eq]
  have hbe : ascii "body" < ascii "error" := by decide
  have hbs : ascii "body" < ascii "seq" := by decide
  have hbt : ascii "body" < ascii "type" := by decide
  have hes : ascii "error" < ascii "seq" := by decide
  have het : ascii "error" < ascii "type" := by decide
  have hst : ascii "seq" < ascii "type" := by decide
  cases body <;> cases sequence <;> cases error <;>
    simp [OrderedMap.Sorted, hbe, hbs, hbt, hes, het, hst]

lemma envelope_reparsed (f : MessageFields) :
    JsonValue.reparsedMembers (envelope f) = envelope f.reparsed := by
  obtain ⟨type, body, sequence, error⟩ := f
  rw [JsonValue.reparsedMembers_eq, envelope_eq, envelope_eq]
  cases body <;> cases sequence <;> cases error <;> rfl

def lookupFields (type : Bytes) (members : List (Bytes × JsonValue)) : MessageFields :=
  ⟨type, members.lookup (ascii "body"), members.lookup (ascii "seq"), members.lookup (ascii "error")⟩

lemma lookup_envelope (f : MessageFields) : (envelope f).lookup (ascii "type") = some (.string f.type) ∧
    lookupFields f.type (envelope f) = f := by
  obtain ⟨type, body, sequence, error⟩ := f
  rw [lookupFields, envelope_eq]
  cases body <;> cases sequence <;> cases error <;> exact ⟨rfl, rfl⟩

lemma parseMessage_ok_iff {text : Bytes} {n : ℕ} {f : MessageFields} :
    (∃ m, parseMessage charconv text n = .ok m ∧ m.fields = f) ↔
      ∃ d, parseEnvelopeText charconv text n = .ok d ∧ d.isObject = true ∧
        d.members.lookup (ascii "type") = some (.string f.type) ∧ lookupFields f.type d.members = f ∧ f.Valid := by
  constructor
  · rintro ⟨m, h, rfl⟩
    obtain ⟨d, hd, h⟩ := bind_eq_ok h
    split_ifs at h with hobject
    refine ⟨d, hd, by simpa using hobject, ?_⟩
    split at h
    · next type htype =>
      obtain ⟨⟨⟩, hvalid, h⟩ := bind_eq_ok h
      obtain rfl := Except.ok.inj h
      obtain ⟨ht, hc, hb, he⟩ := validateFields_ok_iff.mp hvalid
      exact ⟨htype, rfl, ht, hc, hb, he⟩
    · cases h
  · rintro ⟨d, hd, hobject, htype, hfields, hvalid⟩
    obtain ⟨ht, hc, hb, he⟩ := hvalid
    obtain ⟨-, hbody, hseq, herror⟩ := MessageFields.mk.inj hfields
    have hvalidate : validateFields ⟨f.type, d.members.lookup (ascii "body"), none, d.members.lookup (ascii "error")⟩
        .invalidFormat = .ok () := by
      rw [validateFields_ok_iff, hbody, herror]
      exact ⟨ht, hc, hb, he⟩
    refine ⟨⟨f.type, d.members.lookup (ascii "body"), d.members.lookup (ascii "seq"), d.members.lookup (ascii "error"),
      if (d.members.lookup (ascii "body")).isSome then d.rawBodySize else 0⟩, ?_, hfields⟩
    rw [parseMessage, hd]
    simp only [bind, Except.bind, hobject, htype, hvalidate, Bool.not_true, Bool.false_eq_true, ↓reduceIte]

lemma forall_envelope {P : Bytes × JsonValue → Prop} {f : MessageFields} : (∀ m ∈ envelope f, P m) ↔
    (∀ v, f.body = some v → P (ascii "body", v)) ∧ (∀ v, f.error = some v → P (ascii "error", v)) ∧
      (∀ v, f.sequence = some v → P (ascii "seq", v)) ∧ P (ascii "type", .string f.type) := by
  simp only [envelope_eq, List.forall_mem_append, List.forall_mem_map, Option.mem_toList, List.forall_mem_singleton,
    and_assoc]

lemma forall_values {P : JsonValue → Prop} {f : MessageFields} : (∀ v ∈ f.values, P v) ↔
    (∀ v, f.body = some v → P v) ∧ (∀ v, f.error = some v → P v) ∧ ∀ v, f.sequence = some v → P v := by
  simp only [MessageFields.values, List.forall_mem_append, Option.mem_toList]
  tauto

lemma envelope_ordered {f : MessageFields} (h : f.Ordered) : (JsonValue.object (envelope f)).Ordered := by
  obtain ⟨hb, he, hs⟩ := forall_values.mp h
  rw [JsonValue.Ordered, JsonValue.forall_nodes_object]
  refine ⟨envelope_sorted f, ?_⟩
  apply (forall_envelope (P := fun m => m.2.Ordered)).mpr
  refine ⟨hb, he, hs, ?_⟩
  simp [JsonValue.Ordered, JsonValue.nodes, JsonValue.KeysSorted]

lemma envelope_keys (f : MessageFields) : ∀ m ∈ envelope f, Utf8 m.1 := by
  have hb : Utf8 (ascii "body") := .ofAll (by decide)
  have he : Utf8 (ascii "error") := .ofAll (by decide)
  have hs : Utf8 (ascii "seq") := .ofAll (by decide)
  have ht : Utf8 (ascii "type") := .ofAll (by decide)
  exact (forall_envelope (P := fun m => Utf8 m.1)).mpr ⟨fun _ _ => hb, fun _ _ => he, fun _ _ => hs, ht⟩

def Fits (v : JsonValue) : Prop := v.depth + 1 ≤ maximumJsonNestingDepth ∧ v.Dumpable

lemma envelope_depth_iff {f : MessageFields} :
    0 + (JsonValue.object (envelope f)).depth ≤ maximumJsonNestingDepth ↔
      ∀ v ∈ f.values, v.depth + 1 ≤ maximumJsonNestingDepth := by
  rw [JsonValue.depth, JsonValue.add_memberDepth_le_iff,
    forall_envelope (P := fun m => 0 + 1 + m.2.depth ≤ maximumJsonNestingDepth), forall_values]
  simp only [JsonValue.depth, zero_add, Nat.add_comm 1]
  constructor
  · rintro ⟨-, hb, he, hs, -⟩
    exact ⟨hb, he, hs⟩
  · rintro ⟨hb, he, hs⟩
    exact ⟨Nat.zero_le _, hb, he, hs, by decide⟩

lemma envelope_dumpable_iff {f : MessageFields} :
    (JsonValue.object (envelope f)).Dumpable ↔ Utf8 f.type ∧ ∀ v ∈ f.values, v.Dumpable := by
  have htype : (JsonValue.string f.type).Dumpable ↔ Utf8 f.type := by
    simp [JsonValue.Dumpable, JsonValue.nodes, JsonValue.TextsValid, JsonValue.NumberFinite]
  have hmembers := forall_envelope (P := fun m => m.2.Dumpable) (f := f)
  rw [htype] at hmembers
  rw [JsonValue.Dumpable, JsonValue.forall_nodes_object, forall_values]
  constructor
  · rintro ⟨-, h⟩
    obtain ⟨hb, he, hs, ht⟩ := hmembers.mp h
    exact ⟨ht, hb, he, hs⟩
  · rintro ⟨ht, hb, he, hs⟩
    exact ⟨⟨envelope_keys f, trivial⟩, hmembers.mpr ⟨hb, he, hs, ht⟩⟩

lemma serializeMessage_ok_iff (hconv : Charconv.RoundTrips charconv) (f : MessageFields) :
    (∃ text, serializeMessage charconv f = .ok text) ↔ f.Valid ∧ Utf8 f.type ∧ ∀ v ∈ f.values, Fits v := by
  have hdump : (∃ text, dump charconv (.object (envelope f)) = .ok text) ↔ Utf8 f.type ∧ ∀ v ∈ f.values, Fits v := by
    rw [dump, dumpValue_ok_iff hconv, envelope_depth_iff, envelope_dumpable_iff, and_left_comm]
    simp only [Fits, forall₂_and]
  rw [← hdump]
  constructor
  · rintro ⟨text, h⟩
    obtain ⟨⟨⟩, hvalid, h⟩ := bind_eq_ok h
    exact ⟨validateFields_ok_iff.mp hvalid, text, h⟩
  · rintro ⟨hvalid, text, h⟩
    refine ⟨text, ?_⟩
    rw [serializeMessage, validateFields_ok_iff.mpr hvalid, ← h]
    rfl


lemma parseMessage_envelope {text : Bytes} {n : ℕ} {f : MessageFields}
    (h : parseText charconv text (n + 1) = .ok (.object (envelope f))) (hvalid : f.Valid) :
    ∃ m, parseMessage charconv text n = .ok m ∧ m.fields = f := by
  obtain ⟨d, hd, hobject, hmembers⟩ := (parseEnvelopeText_members (envelope f)).mpr h
  obtain ⟨htype, hfields⟩ := lookup_envelope f
  refine parseMessage_ok_iff.mpr ⟨d, hd, hobject, ?_, ?_, hvalid⟩
  · rw [hmembers, htype]
  · rw [hmembers, hfields]

lemma reparsed_fields {f : MessageFields} (h : ∀ v ∈ f.values, v.reparsed = v) : f.reparsed = f := by
  obtain ⟨hb, he, hs⟩ := forall_values.mp h
  obtain ⟨type, body, sequence, error⟩ := f
  have hmap {value : Option JsonValue} (hv : ∀ v, value = some v → v.reparsed = v) :
      value.map JsonValue.reparsed = value := by
    cases value with
    | none => rfl
    | some v => rw [Option.map_some, hv v rfl]
  rw [MessageFields.reparsed, hmap hb, hmap he, hmap hs]

lemma reparsed_isObject {v : JsonValue} (h : v.isObject = true) : v.reparsed.isObject = true := by
  cases v <;> first | rfl | cases h

lemma lookup_reparsed (key : Bytes) (ms : List (Bytes × JsonValue)) :
    (JsonValue.reparsedMembers ms).lookup key = (ms.lookup key).map JsonValue.reparsed := by
  induction ms with
  | nil => rfl
  | cons m ms ih =>
    obtain ⟨key', v⟩ := m
    rw [JsonValue.reparsedMembers, List.lookup_cons, List.lookup_cons]
    cases key == key' with
    | true => rfl
    | false => exact ih

lemma reparsed_isErrorEnvelope {v : JsonValue} (h : isErrorEnvelope v = true) : isErrorEnvelope v.reparsed = true := by
  rw [isErrorEnvelope, Bool.and_eq_true] at h ⊢
  refine ⟨reparsed_isObject h.1, ?_⟩
  cases v with
  | object ms =>
    have hcode := h.2
    simp only [JsonValue.find, JsonValue.reparsed, lookup_reparsed] at hcode ⊢
    cases hlookup : ms.lookup (ascii "code") with
    | none => simp [hlookup] at hcode
    | some code =>
      rw [hlookup] at hcode
      cases code <;> first | rfl | cases hcode
  | _ => cases h.1

lemma valid_reparsed {f : MessageFields} (h : f.Valid) : f.reparsed.Valid := by
  obtain ⟨htype, hcontent, hbody, herror⟩ := h
  refine ⟨htype, ?_, ?_, ?_⟩
  · simpa [MessageFields.reparsed] using hcontent
  · intro v hv
    obtain ⟨v', hv', rfl⟩ := Option.map_eq_some_iff.mp hv
    exact reparsed_isObject (hbody v' hv')
  · intro v hv
    obtain ⟨v', hv', rfl⟩ := Option.map_eq_some_iff.mp hv
    exact reparsed_isErrorEnvelope (herror v' hv')

lemma parseMessage_serialized (hconv : Charconv.RoundTrips charconv) {f : MessageFields} (hf : f.Ordered) {text : Bytes}
    (h : serializeMessage charconv f = .ok text) {n : ℕ} (hlen : text.length ≤ n) :
    ∃ m, parseMessage charconv text n = .ok m ∧ m.fields = f.reparsed := by
  obtain ⟨⟨⟩, hvalid, hdump⟩ := bind_eq_ok h
  have hdepth := ((dumpValue_ok_iff hconv _ 0).mp ⟨text, hdump⟩).1
  rw [Nat.zero_add] at hdepth
  have hparse := (dumpValue_writes hconv _ (envelope_ordered hf) 0 hdump).parseText hdepth (Nat.le_succ_of_le hlen)
  rw [JsonValue.reparsed, envelope_reparsed] at hparse
  exact parseMessage_envelope hparse (valid_reparsed (validateFields_ok_iff.mp hvalid))

lemma lookup_mem {key : Bytes} {ms : List (Bytes × JsonValue)} {v : JsonValue} (h : ms.lookup key = some v) :
    (key, v) ∈ ms := by
  obtain ⟨l₁, l₂, rfl, -⟩ := List.lookup_eq_some_iff.mp h
  simp

lemma parseMessage_fields {text : Bytes} {n : ℕ} {m : Message} (h : parseMessage charconv text n = .ok m) :
    m.fields.Valid ∧ Utf8 m.type ∧ ∀ v ∈ m.fields.values, v.Parsed ∧ v.depth + 1 ≤ maximumJsonNestingDepth := by
  obtain ⟨d, hd, hobject, htype, hfields, hvalid⟩ := parseMessage_ok_iff.mp ⟨m, h, rfl⟩
  obtain ⟨hutf, hdoc⟩ := parseTextWith_ok.mp hd
  have hparse := (parseEnvelopeDocument_members d.members).mp ⟨d, hdoc, hobject, rfl⟩
  obtain ⟨hparsed, hdepth⟩ := parseDocument_parsed ((isValidUtf8_iff text).mp hutf) hparse
  obtain ⟨-, -, hmembers⟩ := JsonValue.parsed_object_iff.mp hparsed
  rw [JsonValue.depth, ← Nat.zero_add (JsonValue.memberDepth _), JsonValue.add_memberDepth_le_iff] at hdepth
  have hmember {key : Bytes} {v : JsonValue} (hv : d.members.lookup key = some v) :
      v.Parsed ∧ v.depth + 1 ≤ maximumJsonNestingDepth := by
    have hle := hdepth.2 _ (lookup_mem hv)
    simp only at hle
    exact ⟨hmembers _ (lookup_mem hv), by omega⟩
  obtain ⟨-, hbody, hseq, herror⟩ := MessageFields.mk.inj hfields
  refine ⟨hvalid, ?_, forall_values.mpr ⟨fun v hv => ?_, fun v hv => ?_, fun v hv => ?_⟩⟩
  · have := (hmember htype).1.dumpable (.string m.type) (by simp [JsonValue.nodes, Message.fields])
    exact this.1
  · exact hmember (hbody.trans hv)
  · exact hmember (herror.trans hv)
  · exact hmember (hseq.trans hv)

lemma parseMessage_congr {text text' : Bytes} {n : ℕ} {d d' : ParsedEnvelopeDocument}
    (hd : parseEnvelopeText charconv text n = .ok d) (hd' : parseEnvelopeText charconv text' n = .ok d')
    (hobject : d.isObject = d'.isObject)
    (hlookup : ∀ key ∈ [ascii "type", ascii "body", ascii "seq", ascii "error"],
      d.members.lookup key = d'.members.lookup key) :
    (parseMessage charconv text n).map Message.fields = (parseMessage charconv text' n).map Message.fields := by
  simp only [List.forall_mem_cons] at hlookup
  obtain ⟨htype, hbody, hseq, herror, -⟩ := hlookup
  simp only [parseMessage, hd, hd', bind, Except.bind, hobject, htype, hbody, hseq, herror]
  cases d'.isObject with
  | false => rfl
  | true =>
    simp only [Bool.not_true, Bool.false_eq_true, ↓reduceIte]
    split
    · cases validateFields _ _ <;> rfl
    · rfl

lemma valid_or_not (f : MessageFields) : f.Valid ↔ ¬ (f.type = [] ∨ (f.body = none ∧ f.error = none) ∨
    (∃ body, f.body = some body ∧ body.isObject = false) ∨
    ∃ error, f.error = some error ∧ isErrorEnvelope error = false) := by
  simp only [not_or, not_exists, not_and, Bool.not_eq_false]
  constructor
  · rintro ⟨ht, hc, hb, he⟩
    exact ⟨ht, fun hnone => hc.resolve_left (not_not_intro hnone), hb, he⟩
  · rintro ⟨ht, hc, hb, he⟩
    exact ⟨ht, or_iff_not_imp_left.mpr fun hnone => hc (not_not.mp hnone), hb, he⟩

lemma serializeMessage_fails_iff (hconv : Charconv.RoundTrips charconv) (f : MessageFields) :
    (∃ status, serializeMessage charconv f = .error status) ↔
      f.type = [] ∨ ¬ Utf8 f.type ∨ (f.body = none ∧ f.error = none) ∨
      (∃ body, f.body = some body ∧ body.isObject = false) ∨
      (∃ error, f.error = some error ∧ isErrorEnvelope error = false) ∨ ∃ v ∈ f.values, ¬ Fits v := by
  have hsplit : (∃ status, serializeMessage charconv f = .error status) ↔
      ¬ ∃ text, serializeMessage charconv f = .ok text := by
    cases serializeMessage charconv f <;> simp
  rw [hsplit, serializeMessage_ok_iff hconv, valid_or_not, not_and_or, not_and_or, not_not]
  simp only [not_forall, exists_prop, or_assoc]
  exact or_congr_right (by simp only [or_left_comm])

/-- Reading and writing messages undo each other, and writing fails only for the reasons it has to. -/
theorem message_round_trip (charconv : Charconv) (hconv : Charconv.RoundTrips charconv) :
    (∀ f : MessageFields, f.Ordered → ∀ text, serializeMessage charconv f = .ok text → text.length < sizeModulus →
      ∃ m, parseMessage charconv text noValueLimit = .ok m ∧ m.fields = f.reparsed) ∧
    (∀ text m, parseMessage charconv text noValueLimit = .ok m →
      ∃ text', serializeMessage charconv m.fields = .ok text' ∧ (text'.length < sizeModulus →
        ∃ m', parseMessage charconv text' noValueLimit = .ok m' ∧ m'.fields = m.fields)) ∧
    (∀ text text' n d d', parseEnvelopeText charconv text n = .ok d → parseEnvelopeText charconv text' n = .ok d' →
      d.isObject = d'.isObject → (∀ key ∈ [ascii "type", ascii "body", ascii "seq", ascii "error"],
        d.members.lookup key = d'.members.lookup key) →
      (parseMessage charconv text n).map Message.fields = (parseMessage charconv text' n).map Message.fields) ∧
    ∀ f : MessageFields, (∃ status, serializeMessage charconv f = .error status) ↔
      f.type = [] ∨ ¬ Utf8 f.type ∨ (f.body = none ∧ f.error = none) ∨
      (∃ body, f.body = some body ∧ body.isObject = false) ∨
      (∃ error, f.error = some error ∧ isErrorEnvelope error = false) ∨
      ∃ v ∈ f.values, ¬ (v.depth + 1 ≤ maximumJsonNestingDepth ∧ ∀ s ∈ v.nodes, s.TextsValid ∧ s.NumberFinite) := by
  refine ⟨fun f hf text h hlen => ?_, fun text m h => ?_, fun text text' n d d' => parseMessage_congr,
    serializeMessage_fails_iff hconv⟩
  · apply parseMessage_serialized hconv hf h
    simp only [noValueLimit]
    omega
  · obtain ⟨hvalid, htype, hvalues⟩ := parseMessage_fields h
    obtain ⟨text', htext⟩ := (serializeMessage_ok_iff hconv m.fields).mpr
      ⟨hvalid, htype, fun v hv => ⟨(hvalues v hv).2, (hvalues v hv).1.dumpable⟩⟩
    refine ⟨text', htext, fun hlen => ?_⟩
    have hordered : m.fields.Ordered := fun v hv => (hvalues v hv).1.ordered
    obtain ⟨m', hm', hfields⟩ := parseMessage_serialized hconv hordered htext (n := noValueLimit)
      (by simp only [noValueLimit]; omega)
    exact ⟨m', hm', by rw [hfields, reparsed_fields fun v hv => (hvalues v hv).1.reparsed]⟩

def greeting : MessageFields := ⟨ascii "hi", some (.object [(ascii "n", .int64 5)]), none, none⟩

def greetingText : Bytes := ascii "\x7b\"body\": \x7b\"n\": 5\x7d, \"type\": \"hi\"\x7d"

lemma serialize_greeting : serializeMessage exactCharconv greeting = .ok greetingText := by
  have hfive : toCharsInteger (Int64.toInt 5) = ascii "5" := by
    rw [toCharsInteger, if_neg (by decide)]
    rfl
  have hutf {text : Bytes} (h : text.all (· < 0x80) = true) : isValidUtf8 text = true :=
    (isValidUtf8_iff text).mpr (.ofAll h)
  have hn : isValidUtf8 (ascii "n") = true := hutf (by decide)
  have hbody : isValidUtf8 (ascii "body") = true := hutf (by decide)
  have htype : isValidUtf8 (ascii "type") = true := hutf (by decide)
  have hhi : isValidUtf8 (ascii "hi") = true := hutf (by decide)
  have hsort {α : Type} (x y : Bytes × α) (h : x.1 ≤ y.1) : [x, y].mergeSort (fun l r => l.1 ≤ r.1) = [x, y] :=
    List.mergeSort_of_pairwise (by simpa using h)
  have henvelope : envelope greeting = [(ascii "body", .object [(ascii "n", .int64 5)]),
      (ascii "type", .string (ascii "hi"))] := envelope_eq greeting
  have hvalid : validateFields greeting .invalidArgument = .ok () := rfl
  rw [serializeMessage, hvalid, henvelope]
  simp only [dump, dumpValue, dumpMembers, dumpObject, dumpString, hfive, hn, hbody, htype, hhi, List.any_cons,
    List.any_nil, List.mergeSort_singleton, Bool.not_true, Bool.or_false, Bool.false_eq_true, ↓reduceIte]
  rw [hsort _ _ (by decide)]
  rfl

theorem message_round_trip_greeting : ∃ m, parseMessage exactCharconv greetingText noValueLimit = .ok m ∧
    m.fields = ⟨ascii "hi", some (.object [(ascii "n", .uint64 5)]), none, none⟩ := by
  have hordered : greeting.Ordered := by
    intro v hv
    obtain rfl : v = .object [(ascii "n", .int64 5)] := by simpa [MessageFields.values, greeting] using hv
    simp [JsonValue.Ordered, JsonValue.nodes, JsonValue.memberNodes, JsonValue.KeysSorted, OrderedMap.Sorted]
  exact (message_round_trip exactCharconv exactCharconv_roundTrips).1 greeting hordered greetingText serialize_greeting
    (by decide)

end Json

end ServerCore.Protocol
