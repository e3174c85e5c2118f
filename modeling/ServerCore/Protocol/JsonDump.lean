import ServerCore.Protocol.JsonMagnitude

/-! When `Dump` succeeds: strings and keys are UTF-8, doubles are finite, and no value lies too deep. -/

namespace ServerCore.Protocol

open ServerCore.Core ServerCore.Foundations

namespace JsonValue

mutual

def nodes : JsonValue → List JsonValue
  | .array elements => .array elements :: elementNodes elements
  | .object members => .object members :: memberNodes members
  | leaf => [leaf]

def elementNodes : List JsonValue → List JsonValue
  | [] => []
  | v :: rest => nodes v ++ elementNodes rest

def memberNodes : List (Bytes × JsonValue) → List JsonValue
  | [] => []
  | (_, v) :: rest => nodes v ++ memberNodes rest

end

mutual

def depth : JsonValue → ℕ
  | .array elements => elementDepth elements
  | .object members => memberDepth members
  | _ => 0

def elementDepth : List JsonValue → ℕ
  | [] => 0
  | v :: rest => max (depth v + 1) (elementDepth rest)

def memberDepth : List (Bytes × JsonValue) → ℕ
  | [] => 0
  | (_, v) :: rest => max (depth v + 1) (memberDepth rest)

end

def TextsValid : JsonValue → Prop
  | .string text => Utf8 text
  | .object members => ∀ m ∈ members, Utf8 m.1
  | _ => True

def NumberFinite : JsonValue → Prop
  | .number bits => isFinite bits = true
  | _ => True

def KeysSorted : JsonValue → Prop
  | .object members => OrderedMap.Sorted members
  | _ => True

def Dumpable (v : JsonValue) : Prop := ∀ s ∈ v.nodes, s.TextsValid ∧ s.NumberFinite

def Ordered (v : JsonValue) : Prop := ∀ s ∈ v.nodes, s.KeysSorted

/-- Induction with the elements and members of a value as lists. -/
@[elab_as_elim]
lemma induction {P : JsonValue → Prop} (null : P .null) (boolean : ∀ b, P (.boolean b)) (int64 : ∀ i, P (.int64 i))
    (uint64 : ∀ u, P (.uint64 u)) (number : ∀ bits, P (.number bits)) (string : ∀ text, P (.string text))
    (array : ∀ elements, (∀ v ∈ elements, P v) → P (.array elements))
    (object : ∀ members, (∀ m ∈ members, P m.2) → P (.object members)) (v : JsonValue) : P v :=
  @JsonValue.rec P (fun elements => ∀ v ∈ elements, P v) (fun members => ∀ m ∈ members, P m.2) (fun m => P m.2)
    null boolean int64 uint64 number string array object (by simp)
    (fun _ _ hv hrest => List.forall_mem_cons.mpr ⟨hv, hrest⟩) (by simp)
    (fun _ _ hm hrest => List.forall_mem_cons.mpr ⟨hm, hrest⟩) (fun _ _ hv => hv) v

lemma elementNodes_eq (vs : List JsonValue) : elementNodes vs = vs.flatMap nodes := by
  induction vs with
  | nil => rfl
  | cons v vs ih => rw [elementNodes, ih, List.flatMap_cons]

lemma memberNodes_eq (ms : List (Bytes × JsonValue)) : memberNodes ms = ms.flatMap fun m => m.2.nodes := by
  induction ms with
  | nil => rfl
  | cons m ms ih => rw [memberNodes, ih, List.flatMap_cons]

lemma add_elementDepth_le_iff {vs : List JsonValue} {m n : ℕ} :
    m + elementDepth vs ≤ n ↔ m ≤ n ∧ ∀ v ∈ vs, m + 1 + v.depth ≤ n := by
  induction vs with
  | nil => simp [elementDepth]
  | cons v vs ih =>
    have hmax : m + max (v.depth + 1) (elementDepth vs) ≤ n ↔ m + 1 + v.depth ≤ n ∧ m + elementDepth vs ≤ n := by omega
    rw [elementDepth, hmax, ih, List.forall_mem_cons]
    exact and_left_comm

lemma add_memberDepth_le_iff {ms : List (Bytes × JsonValue)} {m n : ℕ} :
    m + memberDepth ms ≤ n ↔ m ≤ n ∧ ∀ e ∈ ms, m + 1 + e.2.depth ≤ n := by
  induction ms with
  | nil => simp [memberDepth]
  | cons e ms ih =>
    obtain ⟨key, v⟩ := e
    have hmax : m + max (v.depth + 1) (memberDepth ms) ≤ n ↔ m + 1 + v.depth ≤ n ∧ m + memberDepth ms ≤ n := by omega
    rw [memberDepth, hmax, ih, List.forall_mem_cons]
    exact and_left_comm

lemma forall_nodes_array {Q : JsonValue → Prop} {vs : List JsonValue} :
    (∀ s ∈ (JsonValue.array vs).nodes, Q s) ↔ Q (.array vs) ∧ ∀ v ∈ vs, ∀ s ∈ v.nodes, Q s := by
  simp only [nodes, elementNodes_eq, List.forall_mem_cons, List.forall_mem_flatMap]

lemma forall_nodes_object {Q : JsonValue → Prop} {ms : List (Bytes × JsonValue)} :
    (∀ s ∈ (JsonValue.object ms).nodes, Q s) ↔ Q (.object ms) ∧ ∀ m ∈ ms, ∀ s ∈ m.2.nodes, Q s := by
  simp only [nodes, memberNodes_eq, List.forall_mem_cons, List.forall_mem_flatMap]

end JsonValue

namespace Json

/-- What the code relies on: `to_chars` writes a finite double as a JSON number that `from_chars`
reads back. -/
def Charconv.RoundTrips (charconv : Charconv) : Prop :=
  ∀ bits, isFinite bits = true → ∃ token : NumberToken,
    charconv.toChars bits = some token.text ∧ fromCharsDouble charconv token.text = some bits

variable {charconv : Charconv}

lemma dumpElements_eq (depth : ℕ) (vs : List JsonValue) :
    dumpElements charconv depth vs = vs.map (dumpValue charconv depth) := by
  induction vs with
  | nil => rfl
  | cons v vs ih => rw [dumpElements, ih, List.map_cons]

lemma dumpMembers_eq (depth : ℕ) (ms : List (Bytes × JsonValue)) :
    dumpMembers charconv depth ms = ms.map fun m => (m.1, dumpValue charconv depth m.2) := by
  induction ms with
  | nil => rfl
  | cons m ms ih => rw [dumpMembers, ih, List.map_cons]

lemma joinTexts_ok_iff {texts : List (Except Status Bytes)} :
    (∃ body, joinTexts texts = .ok body) ↔ ∀ text ∈ texts, ∃ x, text = .ok x := by
  induction texts with
  | nil => simp [joinTexts]
  | cons text texts ih =>
    cases texts with
    | nil => simp [joinTexts]
    | cons text' texts =>
      rw [List.forall_mem_cons, ← ih]
      constructor
      · rintro ⟨body, h⟩
        obtain ⟨head, hhead, h⟩ := bind_eq_ok h
        obtain ⟨tail, htail, -⟩ := bind_eq_ok h
        exact ⟨⟨head, hhead⟩, tail, htail⟩
      · rintro ⟨⟨head, rfl⟩, tail, htail⟩
        refine ⟨head ++ ascii ", " ++ tail, ?_⟩
        rw [joinTexts, htail]
        · rfl
        · simp

lemma atDepth_ok_iff {depth : ℕ} {text : Except Status Bytes} :
    (∃ x, atDepth depth text = .ok x) ↔ depth ≤ maximumJsonNestingDepth ∧ ∃ x, text = .ok x := by
  simp only [atDepth]
  split_ifs with h
  · simp only [exists_const, false_iff, not_and]
    omega
  · simp only [not_lt.mp h, true_and]

lemma dumpArray_ok_iff {texts : List (Except Status Bytes)} :
    (∃ x, dumpArray texts = .ok x) ↔ ∀ text ∈ texts, ∃ x, text = .ok x := by
  rw [← joinTexts_ok_iff]
  constructor
  · rintro ⟨x, h⟩
    obtain ⟨body, hbody, -⟩ := bind_eq_ok h
    exact ⟨body, hbody⟩
  · rintro ⟨body, hbody⟩
    exact ⟨91 :: body ++ [93], by rw [dumpArray, hbody]; rfl⟩

lemma memberText_ok_iff {member : Bytes × Except Status Bytes} :
    (∃ x, memberText member = .ok x) ↔ ∃ x, member.2 = .ok x := by
  constructor
  · rintro ⟨x, h⟩
    obtain ⟨value, hvalue, -⟩ := bind_eq_ok h
    exact ⟨value, hvalue⟩
  · rintro ⟨value, hvalue⟩
    exact ⟨_, by rw [memberText, hvalue]; rfl⟩

lemma dumpObject_ok_iff {members : List (Bytes × Except Status Bytes)} :
    (∃ x, dumpObject members = .ok x) ↔ ∀ m ∈ members, Utf8 m.1 ∧ ∃ x, m.2 = .ok x := by
  have hkeys : (members.any fun member => !isValidUtf8 member.1) = false ↔ ∀ m ∈ members, Utf8 m.1 := by
    simp [← isValidUtf8_iff]
  have hjoin : (∃ body, joinTexts ((members.mergeSort fun l r => l.1 ≤ r.1).map memberText) = .ok body) ↔
      ∀ m ∈ members, ∃ x, m.2 = .ok x := by
    rw [joinTexts_ok_iff]
    simp only [List.forall_mem_map, List.mem_mergeSort, memberText_ok_iff]
  rw [forall₂_and, ← hkeys, ← hjoin, dumpObject]
  cases members.any fun member => !isValidUtf8 member.1 with
  | true => simp
  | false =>
    simp only [Bool.false_eq_true, ↓reduceIte, true_and]
    constructor
    · rintro ⟨x, h⟩
      obtain ⟨body, hbody, -⟩ := bind_eq_ok h
      exact ⟨body, hbody⟩
    · rintro ⟨body, hbody⟩
      exact ⟨_, by rw [hbody]; rfl⟩

lemma dumpNumber_ok_iff (hconv : Charconv.RoundTrips charconv) (bits : UInt64) :
    (∃ x, dumpNumber charconv bits = .ok x) ↔ isFinite bits = true := by
  rw [dumpNumber]
  cases hf : isFinite bits with
  | false => simp
  | true =>
    obtain ⟨token, htoken, -⟩ := hconv bits hf
    simp only [htoken, Bool.not_true, Bool.false_eq_true, ↓reduceIte, iff_true]
    split_ifs <;> exact ⟨_, rfl⟩

lemma dumpString_ok_iff (text : Bytes) : (∃ x, dumpString text = .ok x) ↔ Utf8 text := by
  rw [dumpString, ← isValidUtf8_iff]
  cases isValidUtf8 text <;> simp

lemma dumpValue_ok_iff (hconv : Charconv.RoundTrips charconv) (v : JsonValue) (depth : ℕ) :
    (∃ x, dumpValue charconv depth v = .ok x) ↔ depth + v.depth ≤ maximumJsonNestingDepth ∧ v.Dumpable := by
  induction v using JsonValue.induction generalizing depth with
  | null => simp [dumpValue, atDepth_ok_iff, JsonValue.depth, JsonValue.Dumpable, JsonValue.nodes,
      JsonValue.TextsValid, JsonValue.NumberFinite]
  | boolean b => simp [dumpValue, atDepth_ok_iff, JsonValue.depth, JsonValue.Dumpable, JsonValue.nodes,
      JsonValue.TextsValid, JsonValue.NumberFinite]
  | int64 i => simp [dumpValue, atDepth_ok_iff, JsonValue.depth, JsonValue.Dumpable, JsonValue.nodes,
      JsonValue.TextsValid, JsonValue.NumberFinite]
  | uint64 u => simp [dumpValue, atDepth_ok_iff, JsonValue.depth, JsonValue.Dumpable, JsonValue.nodes,
      JsonValue.TextsValid, JsonValue.NumberFinite]
  | number bits => simp [dumpValue, atDepth_ok_iff, dumpNumber_ok_iff hconv, JsonValue.depth, JsonValue.Dumpable,
      JsonValue.nodes, JsonValue.TextsValid, JsonValue.NumberFinite]
  | string text => simp [dumpValue, atDepth_ok_iff, dumpString_ok_iff, JsonValue.depth, JsonValue.Dumpable,
      JsonValue.nodes, JsonValue.TextsValid, JsonValue.NumberFinite]
  | array vs ih =>
    rw [dumpValue, atDepth_ok_iff, dumpArray_ok_iff, dumpElements_eq, List.forall_mem_map, JsonValue.Dumpable,
      JsonValue.forall_nodes_array, JsonValue.depth, forall₂_congr fun v hv => ih v hv (depth + 1),
      JsonValue.add_elementDepth_le_iff]
    simp only [JsonValue.TextsValid, JsonValue.NumberFinite, true_and, forall₂_and, and_assoc, JsonValue.Dumpable]
  | object ms ih =>
    rw [dumpValue, atDepth_ok_iff, dumpObject_ok_iff, dumpMembers_eq, List.forall_mem_map, JsonValue.Dumpable,
      JsonValue.forall_nodes_object, JsonValue.depth, JsonValue.add_memberDepth_le_iff]
    have hmembers : (∀ m ∈ ms, Utf8 m.1 ∧ ∃ x, dumpValue charconv (depth + 1) m.2 = .ok x) ↔
        (∀ m ∈ ms, Utf8 m.1) ∧ (∀ m ∈ ms, depth + 1 + m.2.depth ≤ maximumJsonNestingDepth) ∧
          ∀ m ∈ ms, m.2.Dumpable := by
      rw [forall₂_and, forall₂_congr fun m hm => ih m hm (depth + 1), forall₂_and]
    rw [hmembers]
    simp only [JsonValue.TextsValid, JsonValue.NumberFinite, and_true, JsonValue.Dumpable]
    tauto

end Json

end ServerCore.Protocol
