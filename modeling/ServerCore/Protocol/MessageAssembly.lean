import ServerCore.Protocol.MessageRoundTrip

/-! Messages assembled from prepared values read like messages that were written as a whole. -/

namespace ServerCore.Protocol.Json

open ServerCore.Core ServerCore.Foundations

variable {charconv : Charconv}

def joinItems : List Bytes → Bytes
  | [] => []
  | [text] => text
  | text :: texts => text ++ 44 :: joinItems texts

lemma joinItems_cons (text : Bytes) {texts : List Bytes} (h : texts ≠ []) :
    joinItems (text :: texts) = text ++ 44 :: joinItems texts := by
  cases texts with
  | nil => exact absurd rfl h
  | cons text' texts => rfl

lemma appendItems_next {items : List PreparedJsonValue} (h : ∀ item ∈ items, item.bytes ≠ []) (hne : items ≠ [])
    (text : Bytes) : appendItems false text (items.map some) = .ok (text ++ 44 :: joinItems (items.map (·.bytes))) := by
  induction items generalizing text with
  | nil => exact absurd rfl hne
  | cons item items ih =>
    rw [List.forall_mem_cons] at h
    rw [List.map_cons, appendItems, if_neg (by simpa using h.1)]
    simp only [Bool.false_eq_true, ↓reduceIte]
    cases items with
    | nil => simp [appendItems, joinItems]
    | cons item' items =>
      have hjoin := @joinItems_cons item.bytes ((item' :: items).map (·.bytes)) (by simp)
      rw [ih h.2 (by simp), List.map_cons (a := item), hjoin]
      simp

lemma appendItems_first {items : List PreparedJsonValue} (h : ∀ item ∈ items, item.bytes ≠ []) (text : Bytes) :
    appendItems true text (items.map some) = .ok (text ++ joinItems (items.map (·.bytes))) := by
  cases items with
  | nil => simp [appendItems, joinItems]
  | cons item items =>
    rw [List.forall_mem_cons] at h
    rw [List.map_cons, appendItems, if_neg (by simpa using h.1)]
    cases items with
    | nil => simp [appendItems, joinItems]
    | cons item' items =>
      have hjoin := @joinItems_cons item.bytes ((item' :: items).map (·.bytes)) (by simp)
      rw [if_pos rfl, appendItems_next h.2 (by simp), List.map_cons (a := item), hjoin]
      simp

lemma writes_items {vs : List JsonValue} {texts : List Bytes} (hne : vs ≠ [])
    (h : List.Forall₂ (Writes charconv) vs texts) :
    Utf8 (joinItems texts) ∧ ∃ ts, Spells (.elements ts) (joinItems texts) ∧ (∀ t ∈ ts, t.Good charconv) ∧
      Tree.elementDepth ts = JsonValue.elementDepth vs ∧
      Tree.elementValues charconv ts = JsonValue.reparsedElements vs := by
  have hnil : Whitespace [] := by simp [Whitespace]
  induction h with
  | nil => exact absurd rfl hne
  | @cons v text vs texts hwrites hrest ih =>
    obtain ⟨hutf, t, hs, hg, hd, hv⟩ := hwrites
    cases hrest with
    | nil =>
      refine ⟨hutf, [t], ?_, by simpa using hg, ?_, ?_⟩
      · simpa [joinItems] using Spells.lastElement hs hnil
      · simp [Tree.elementDepth, JsonValue.elementDepth, hd]
      · simp [Tree.elementValues, JsonValue.reparsedElements, hv]
    | @cons v' text' vs texts hwrites' hrest =>
      obtain ⟨hutf', ts, hs', hg', hd', hv'⟩ := ih (by simp)
      rw [joinItems_cons _ (by simp)]
      have hcomma : Utf8 [44] := .ofAll (by decide)
      refine ⟨hutf.append (hcomma.append hutf'), t :: ts, ?_, List.forall_mem_cons.mpr ⟨hg, hg'⟩, ?_, ?_⟩
      · simpa using Spells.element hs hnil hnil hs'
      · rw [Tree.elementDepth, JsonValue.elementDepth, hd, hd']
      · rw [Tree.elementValues, JsonValue.reparsedElements, hv, hv']

lemma writes_joined_array {vs : List JsonValue} {texts : List Bytes} (h : List.Forall₂ (Writes charconv) vs texts) :
    Writes charconv (.array vs) (91 :: joinItems texts ++ [93]) := by
  have hnil : Whitespace [] := by simp [Whitespace]
  cases vs with
  | nil =>
    cases h
    exact ⟨.ofAll (by decide), .array [], .emptyArray hnil, Tree.good_array.mpr (by simp), rfl, rfl⟩
  | cons v vs =>
    obtain ⟨hutf, ts, hs, hg, hd, hv⟩ := writes_items (by simp) h
    have hopen : Utf8 [91] := .ofAll (by decide)
    refine ⟨(hopen.append hutf).append (.ofAll (by decide)), .array ts, .array hnil hs, Tree.good_array.mpr hg, ?_, ?_⟩
    · rw [Tree.depth, JsonValue.depth, hd]
    · rw [Tree.value, JsonValue.reparsed, hv]

lemma writes_single {key x : Bytes} {v : JsonValue} (hkey : Utf8 key) (h : Writes charconv v x) :
    Writes charconv (.object [(key, v)]) (123 :: dumpEscapedString key ++ 58 :: x ++ [125]) := by
  have hnil : Whitespace [] := by simp [Whitespace]
  obtain ⟨hutf, t, hs, hg, hd, hv⟩ := h
  obtain ⟨items, htext, hp, hu⟩ := dumpEscapedString_items key
  have hopen : Utf8 [123] := .ofAll (by decide)
  have hcolon : Utf8 [58] := .ofAll (by decide)
  refine ⟨?_, .object [(items, t)], ?_, ?_, ?_, ?_⟩
  · exact ((hopen.append (dumpEscapedString_utf8 hkey)).append (hcolon.append hutf)).append (.ofAll (by decide))
  · have hmember : Spells (.members [(items, t)]) (stringText items ++ [] ++ 58 :: [] ++ x ++ []) :=
      .lastMember hnil hnil hs hnil
    rw [← htext]
    simpa using Spells.object hnil hmember
  · exact Tree.good_object.mpr ⟨⟨by simpa using hp, by simp⟩, by simpa using hg⟩
  · simp [Tree.depth, Tree.memberDepth, JsonValue.depth, JsonValue.memberDepth, hd]
  · simp [Tree.value, Tree.memberValues, OrderedMap.insertAll, OrderedMap.insert, JsonValue.reparsed,
      JsonValue.reparsedMembers, hu, hv]

lemma writes_assembled {body : JsonValue} {x type : Bytes} (htype : Utf8 type) (h : Writes charconv body x) :
    Writes charconv (.object [(ascii "body", body), (ascii "type", .string type)])
      (ascii "\x7b\"body\":" ++ x ++ ascii ",\"type\":" ++ dumpEscapedString type ++ ascii "\x7d") := by
  have hnil : Whitespace [] := by simp [Whitespace]
  obtain ⟨hutf, t, hs, hg, hd, hv⟩ := h
  obtain ⟨items, htext, hp, hu⟩ := dumpEscapedString_items type
  obtain ⟨bodyItems, hbodyText, hbodyPaired, hbodyKey⟩ := dumpEscapedString_items (ascii "body")
  obtain ⟨typeItems, htypeText, htypePaired, htypeKey⟩ := dumpEscapedString_items (ascii "type")
  have hlast : Spells (.members [(typeItems, .string items)])
      (stringText typeItems ++ [] ++ 58 :: [] ++ stringText items ++ []) := .lastMember hnil hnil (.string items) hnil
  have hmembers : Spells (.members [(bodyItems, t), (typeItems, .string items)]) _ :=
    .member hnil hnil hs hnil hnil hlast
  have hobject := Spells.object hnil hmembers
  refine ⟨?_, .object [(bodyItems, t), (typeItems, .string items)], ?_, ?_, ?_, ?_⟩
  · have hopen : Utf8 (ascii "\x7b\"body\":") := .ofAll (by decide)
    have hmiddle : Utf8 (ascii ",\"type\":") := .ofAll (by decide)
    have hclose : Utf8 (ascii "\x7d") := .ofAll (by decide)
    exact (((hopen.append hutf).append hmiddle).append (dumpEscapedString_utf8 htype)).append hclose
  · rw [hbodyText, htypeText, htext] at hobject
    have hopen : ascii "\x7b\"body\":" = 123 :: dumpEscapedString (ascii "body") ++ [58] := by decide
    have hmiddle : ascii ",\"type\":" = 44 :: dumpEscapedString (ascii "type") ++ [58] := by decide
    have hclose : ascii "\x7d" = [125] := rfl
    rw [hopen, hmiddle, hclose]
    simpa using hobject
  · have hstring : (Tree.string items).Good charconv := by simpa [Tree.Good, Tree.nodes, Tree.Accepted] using hp
    refine Tree.good_object.mpr ⟨⟨?_, ?_⟩, ?_⟩
    · simpa using ⟨hbodyPaired, htypePaired⟩
    · simp only [List.map_cons, List.map_nil, hbodyKey, htypeKey]
      decide
    · simpa using ⟨hg, hstring⟩
  · simp [Tree.depth, Tree.memberDepth, JsonValue.depth, JsonValue.memberDepth, hd]
  · rw [Tree.value, Tree.memberValues, Tree.memberValues, Tree.memberValues, hbodyKey, htypeKey, hv, Tree.value, hu]
    rfl

lemma dumpValue_nonempty (hconv : Charconv.RoundTrips charconv) {v : JsonValue} (hv : v.Ordered) {depth : ℕ} {x : Bytes}
    (h : dumpValue charconv depth v = .ok x) : x ≠ [] := by
  obtain ⟨-, t, hs, -⟩ := dumpValue_writes hconv v hv depth h
  exact List.length_pos_iff.mp (spells_length hs)

lemma prepareJsonValue_eq_ok {v : JsonValue} {item : PreparedJsonValue} :
    prepareJsonValue charconv v = .ok item ↔ dumpValue charconv 3 v = .ok item.bytes := by
  obtain ⟨bytes⟩ := item
  rw [prepareJsonValue]
  cases dumpValue charconv 3 v with
  | error status => simp [bind, Except.bind]
  | ok dumped => simp [bind, Except.bind]

def arrayFields (type arrayKey : Bytes) (vs : List JsonValue) : MessageFields :=
  ⟨type, some (.object [(arrayKey, .array vs)]), none, none⟩

lemma dump_string {text : Bytes} (h : Utf8 text) : dump charconv (.string text) = .ok (dumpEscapedString text) := by
  rw [dump, dumpValue, atDepth, if_neg (by decide), dumpString, (isValidUtf8_iff text).mpr h]
  rfl

lemma prepareArrayMessage_eq {type arrayKey : Bytes} (hne : type ≠ []) (htype : Utf8 type) (hkey : Utf8 arrayKey)
    {items : List PreparedJsonValue} (hitems : ∀ item ∈ items, item.bytes ≠ []) :
    prepareArrayMessage charconv type arrayKey (items.map some) =
      .ok ⟨ascii "\x7b\"body\":" ++ (123 :: dumpEscapedString arrayKey ++
        58 :: (91 :: joinItems (items.map (·.bytes)) ++ [93]) ++ [125]) ++ ascii ",\"type\":" ++
        dumpEscapedString type ++ ascii "\x7d"⟩ := by
  rw [prepareArrayMessage, if_neg hne, dump_string htype, dump_string hkey]
  simp only [bind, Except.bind, appendItems_first hitems]
  have hopen : ascii "\x7b\"body\":\x7b" = ascii "\x7b\"body\":" ++ [123] := rfl
  have harray : ascii ":[" = [58, 91] := rfl
  have hclose : ascii "]\x7d,\"type\":" = [93, 125] ++ ascii ",\"type\":" := rfl
  rw [hopen, harray, hclose]
  simp

lemma fits_arrayBody {arrayKey : Bytes} (hkey : Utf8 arrayKey) (vs : List JsonValue) :
    Fits (.object [(arrayKey, .array vs)]) ↔
      ∀ v ∈ vs, 3 + v.depth ≤ maximumJsonNestingDepth ∧ v.Dumpable := by
  have hdepth : (JsonValue.object [(arrayKey, .array vs)]).depth + 1 ≤ maximumJsonNestingDepth ↔
      ∀ v ∈ vs, 3 + v.depth ≤ maximumJsonNestingDepth := by
    have hcount : (JsonValue.object [(arrayKey, .array vs)]).depth + 1 = 2 + JsonValue.elementDepth vs := by
      simp only [JsonValue.depth, JsonValue.memberDepth]
      omega
    rw [hcount, JsonValue.add_elementDepth_le_iff]
    exact and_iff_right (by decide)
  rw [Fits, hdepth, JsonValue.Dumpable, JsonValue.forall_nodes_object, List.forall_mem_singleton,
    JsonValue.forall_nodes_array, forall₂_and]
  simp only [JsonValue.TextsValid, JsonValue.NumberFinite, List.forall_mem_singleton, hkey, and_self, true_and,
    JsonValue.Dumpable]

lemma arrayFields_fit (type : Bytes) {arrayKey : Bytes} (hkey : Utf8 arrayKey) (vs : List JsonValue) :
    (∀ w ∈ (arrayFields type arrayKey vs).values, Fits w) ↔
      ∀ v ∈ vs, 3 + v.depth ≤ maximumJsonNestingDepth ∧ v.Dumpable := by
  rw [← fits_arrayBody hkey]
  simp [MessageFields.values, arrayFields]

lemma arrayFields_valid {type : Bytes} (hne : type ≠ []) (arrayKey : Bytes) (vs : List JsonValue) :
    (arrayFields type arrayKey vs).Valid := by
  refine ⟨hne, .inl (by simp [arrayFields]), ?_, by simp [arrayFields]⟩
  intro body hbody
  obtain rfl := Option.some.inj hbody
  rfl

lemma prepared_writes (hconv : Charconv.RoundTrips charconv) {vs : List JsonValue} {items : List PreparedJsonValue}
    (hordered : ∀ v ∈ vs, v.Ordered)
    (h : List.Forall₂ (fun v item => prepareJsonValue charconv v = .ok item) vs items) :
    List.Forall₂ (Writes charconv) vs (items.map (·.bytes)) ∧ (∀ item ∈ items, item.bytes ≠ []) ∧
      ∀ v ∈ vs, 3 + v.depth ≤ maximumJsonNestingDepth ∧ v.Dumpable := by
  induction h with
  | nil => simp
  | @cons v item vs items hitem hrest ih =>
    rw [List.forall_mem_cons] at hordered
    rw [prepareJsonValue_eq_ok] at hitem
    obtain ⟨hwrites, hitems, hfit⟩ := ih hordered.2
    refine ⟨.cons (dumpValue_writes hconv v hordered.1 3 hitem) hwrites, ?_, ?_⟩
    · exact List.forall_mem_cons.mpr ⟨dumpValue_nonempty hconv hordered.1 hitem, hitems⟩
    · exact List.forall_mem_cons.mpr ⟨(dumpValue_ok_iff hconv v 3).mp ⟨_, hitem⟩, hfit⟩

/-- What is assembled from prepared values is the message with these values, and a value can be
prepared exactly when a message with it can be written. -/
theorem prepared_array_message (charconv : Charconv) (hconv : Charconv.RoundTrips charconv) (type arrayKey : Bytes)
    (hne : type ≠ []) (htype : Utf8 type) (hkey : Utf8 arrayKey) :
    (∀ vs items, (∀ v ∈ vs, v.Ordered) → List.Forall₂ (fun v item => prepareJsonValue charconv v = .ok item) vs items →
      ∃ prepared, prepareArrayMessage charconv type arrayKey (items.map some) = .ok prepared ∧
        (prepared.bytes.length < sizeModulus → ∃ m, parseMessage charconv prepared.bytes noValueLimit = .ok m ∧
          m.fields = (arrayFields type arrayKey vs).reparsed)) ∧
    ∀ v, (∃ item, prepareJsonValue charconv v = .ok item) ↔
      ∃ text, serializeMessage charconv (arrayFields type arrayKey [v]) = .ok text := by
  constructor
  · intro vs items hordered hitems
    obtain ⟨hwrites, hnonempty, hfit⟩ := prepared_writes hconv hordered hitems
    refine ⟨_, prepareArrayMessage_eq hne htype hkey hnonempty, fun hlen => ?_⟩
    have hassembled := writes_assembled htype (writes_single hkey (writes_joined_array hwrites))
    have henvelope : (JsonValue.object (envelope (arrayFields type arrayKey vs))).depth ≤ maximumJsonNestingDepth := by
      have hvalues := (arrayFields_fit type hkey vs).mpr hfit
      have hdepth := envelope_depth_iff.mpr fun w hw => (hvalues w hw).1
      rwa [Nat.zero_add] at hdepth
    have hlimit : sizeModulus = noValueLimit + 1 := rfl
    have hparse := hassembled.parseText henvelope (hlen.le.trans_eq hlimit)
    apply parseMessage_envelope _ (valid_reparsed (arrayFields_valid hne arrayKey vs))
    rw [← envelope_reparsed]
    exact hparse
  · intro v
    have hprepare : (∃ item, prepareJsonValue charconv v = .ok item) ↔
        3 + v.depth ≤ maximumJsonNestingDepth ∧ v.Dumpable := by
      rw [← dumpValue_ok_iff hconv v 3]
      simp only [prepareJsonValue_eq_ok]
      constructor
      · rintro ⟨item, h⟩
        exact ⟨item.bytes, h⟩
      · rintro ⟨bytes, h⟩
        exact ⟨⟨bytes⟩, h⟩
    rw [hprepare, serializeMessage_ok_iff hconv, arrayFields_fit type hkey, List.forall_mem_singleton]
    exact (and_iff_right (arrayFields_valid hne arrayKey [v])).trans (and_iff_right htype) |>.symm

def pairText : Bytes := ascii "\x7b\"body\":\x7b\"k\":[5,true]\x7d,\"type\":\"t\"\x7d"

lemma prepare_pair : prepareArrayMessage exactCharconv (ascii "t") (ascii "k") [some ⟨ascii "5"⟩, some ⟨ascii "true"⟩] =
    .ok ⟨pairText⟩ := by
  have ht : Utf8 (ascii "t") := .ofAll (by decide)
  have hk : Utf8 (ascii "k") := .ofAll (by decide)
  exact @prepareArrayMessage_eq exactCharconv (ascii "t") (ascii "k") (by decide) ht hk
    [⟨ascii "5"⟩, ⟨ascii "true"⟩] (by decide)

theorem prepared_array_message_pair :
    ∃ m, parseMessage exactCharconv pairText noValueLimit = .ok m ∧
      m.fields = ⟨ascii "t", some (.object [(ascii "k", .array [.uint64 5, .boolean true])]), none, none⟩ := by
  have ht : Utf8 (ascii "t") := .ofAll (by decide)
  have hk : Utf8 (ascii "k") := .ofAll (by decide)
  have hfive : toCharsInteger (Int64.toInt 5) = ascii "5" := by
    rw [toCharsInteger, if_neg (by decide)]
    rfl
  have hnumber : prepareJsonValue exactCharconv (.int64 5) = .ok ⟨ascii "5"⟩ := by
    rw [prepareJsonValue, dumpValue, hfive]
    rfl
  have hbool : prepareJsonValue exactCharconv (.boolean true) = .ok ⟨ascii "true"⟩ := by
    rw [prepareJsonValue, dumpValue]
    rfl
  have hordered : ∀ v ∈ [JsonValue.int64 5, .boolean true], v.Ordered := by
    simp [JsonValue.Ordered, JsonValue.nodes, JsonValue.KeysSorted]
  obtain ⟨prepared, hprepared, hparse⟩ := (prepared_array_message exactCharconv exactCharconv_roundTrips (ascii "t")
    (ascii "k") (by decide) ht hk).1 [.int64 5, .boolean true] [⟨ascii "5"⟩, ⟨ascii "true"⟩] hordered
    (.cons hnumber (.cons hbool .nil))
  obtain rfl : ⟨pairText⟩ = prepared := Except.ok.inj (prepare_pair.symm.trans hprepared)
  exact hparse (by decide)

end ServerCore.Protocol.Json
