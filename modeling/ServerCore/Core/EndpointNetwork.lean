import ServerCore.Core.EndpointText

/-! The words `IpAddress::Parse` stores, the count of groups it asks for, and the bits
`IpNetwork::Contains` compares. -/

namespace ServerCore.Core

/-- The array and the count that `Words` works on. -/
structure WordArray where
  words : List ℕ
  count : ℕ
  deriving DecidableEq, Repr

namespace WordArray

def empty : WordArray := ⟨List.replicate 8 0, 0⟩

/-- `words[count++] = value`: `none` is a write outside of the array. -/
def push (a : WordArray) (value : ℕ) : Option WordArray :=
  if a.count < a.words.length then some ⟨a.words.set a.count value, a.count + 1⟩ else none

def pushQuad (a : WordArray) (bytes : Bytes) : Option WordArray :=
  (a.push (wordAt bytes 0)).bind fun a => a.push (wordAt bytes 1)

end WordArray

def wordsInto (allowV4 : Bool) (text : Bytes) (a : WordArray) : Option (Bool × WordArray) :=
  match h : text.findIdx? (· = 58) with
  | none =>
    if text = [] || a.count = 8 then some (false, a)
    else if text.contains 46 then
      if !allowV4 || 6 < a.count then some (false, a)
      else
        match v4 text with
        | none => some (false, a)
        | some bytes => (a.pushQuad bytes).map (true, ·)
    else if (group text).isNone then some (false, a)
    else (a.push (hexValue text)).map (true, ·)
  | some colon =>
    if text.take colon = [] || a.count = 8 then some (false, a)
    else if (text.take colon).contains 46 then some (false, a)
    else if (group (text.take colon)).isNone then some (false, a)
    else
      (a.push (hexValue (text.take colon))).bind fun a =>
        if text.drop (colon + 1) = [] then some (false, a) else wordsInto allowV4 (text.drop (colon + 1)) a
termination_by text.length
decreasing_by
  have hlt : colon < text.length := by
    obtain ⟨hlt, -⟩ := List.findIdx?_eq_some_iff_getElem.mp h
    exact hlt
  rw [List.length_drop]
  omega

def intoWords (text : Bytes) (allowV4 : Bool) (a : WordArray) : Option (Bool × WordArray) :=
  if text = [] then some (true, a) else wordsInto allowV4 text a

def copyTo (source target : List ℕ) (offset : ℕ) : Option (List ℕ) :=
  if offset + source.length ≤ target.length then
    some (overwrite target offset source)
  else none

/-- The words of `IpAddress::Parse`: the outer `none` is a write outside of an array. -/
def v6Into (text : Bytes) : Option (Option (List ℕ)) :=
  match find [58, 58] text with
  | none => (intoWords text true .empty).map fun left => if !left.1 || left.2.count ≠ 8 then none else some left.2.words
  | some compressed =>
    if (find [58, 58] (text.drop (compressed + 2))).isSome then some none
    else
      (intoWords (text.take compressed) false .empty).bind fun left =>
        if !left.1 then some none
        else
          (intoWords (text.drop (compressed + 2)) true .empty).bind fun right =>
            if !right.1 || 8 ≤ left.2.count + right.2.count then some none
            else (copyTo (right.2.words.take right.2.count) left.2.words (8 - right.2.count)).map some

def groupWords (part : Bytes) : ℕ := if part.contains 46 then 2 else 1

def wordCount (text : Bytes) : ℕ := if text = [] then 0 else ((text.splitOn 58).map groupWords).sum

def EightWords (text : Bytes) : Prop :=
  match find [58, 58] text with
  | none => wordCount text = 8
  | some compressed => wordCount (text.take compressed) + wordCount (text.drop (compressed + 2)) < 8

section Split

lemma v4Loop_length {dots : ℕ} {text bytes : Bytes} (h : v4Loop dots text = some bytes) : bytes.length = dots + 1 := by
  induction dots generalizing text bytes with
  | zero =>
    rw [v4Loop] at h
    split_ifs at h
    obtain ⟨b, _, rfl⟩ := Option.map_eq_some_iff.mp h
    rfl
  | succ dots ih =>
    rw [v4Loop] at h
    simp only [Option.bind_eq_bind, Option.bind_eq_some_iff] at h
    obtain ⟨dot, _, b, _, rest, hrest, heq⟩ := h
    cases heq
    rw [List.length_cons, ih hrest]

lemma group_eq {part bytes : Bytes} (h : group part = some bytes) : bytes = wordBytes (hexValue part) := by
  unfold group at h
  split_ifs at h
  cases h
  rfl

lemma wordsLoop_last {text : Bytes} (h : text.findIdx? (· = 58) = none) (allowV4 : Bool) (room : ℕ) :
    wordsLoop allowV4 room text =
      if text = [] ∨ room = 0 then none
      else if text.contains 46 then if !allowV4 || room < 2 then none else v4 text
      else group text := by
  cases room with
  | zero =>
    rw [wordsLoop, h]
    simp
  | succ room =>
    rw [wordsLoop, h]
    generalize hpart : upTo text none = part
    obtain rfl : text = part := hpart
    by_cases hempty : text = []
    · rw [if_pos hempty, if_pos (.inl hempty)]
    · simp only [hempty, Nat.succ_ne_zero, or_self, if_false, Option.isSome_none, Bool.or_false]
      congr 1
      · have hroom : decide (room = 0) = decide (room + 1 < 2) := by
          rw [decide_eq_decide]
          omega
        rw [hroom]
      · cases group text <;> rfl

lemma wordsLoop_next {text : Bytes} {colon : ℕ} (h : text.findIdx? (· = 58) = some colon) (allowV4 : Bool) (room : ℕ) :
    wordsLoop allowV4 room text =
      if text.take colon = [] ∨ room = 0 then none
      else if (text.take colon).contains 46 then none
      else if text.drop (colon + 1) = [] then none
      else (group (text.take colon)).bind fun word =>
        (wordsLoop allowV4 (room - 1) (text.drop (colon + 1))).map (word ++ ·) := by
  cases room with
  | zero =>
    rw [wordsLoop, h]
    simp
  | succ room =>
    rw [wordsLoop, h]
    generalize hpart : upTo text (some colon) = part
    have htake : text.take colon = part := hpart
    rw [htake]
    by_cases hempty : part = []
    · rw [if_pos hempty, if_pos (.inl hempty)]
    · simp only [hempty, Nat.succ_ne_zero, or_self, if_false, Option.isSome_some, Bool.or_true, Bool.true_or,
        if_true, Nat.add_sub_cancel]
      congr 1
      cases group part with
      | none => simp
      | some word => rfl

lemma wordsLoop_count {allowV4 : Bool} {room : ℕ} {text bytes : Bytes} (h : wordsLoop allowV4 room text = some bytes) :
    bytes.length = 2 * ((text.splitOn 58).map groupWords).sum := by
  induction room generalizing text bytes with
  | zero =>
    cases hcolon : text.findIdx? (· = 58) with
    | none => simp [wordsLoop_last hcolon] at h
    | some colon => simp [wordsLoop_next hcolon] at h
  | succ room ih =>
    cases hcolon : text.findIdx? (· = 58) with
    | none =>
      rw [wordsLoop_last hcolon] at h
      rw [List.splitOn_eq_singleton (findIdx?_none hcolon), List.map_singleton, List.sum_singleton]
      by_cases hempty : text = []
      · simp [hempty] at h
      · rw [if_neg (by simp [hempty])] at h
        unfold groupWords
        split_ifs at h ⊢ with hdot hallow
        · rw [v4Loop_length h]
        · rw [group_eq h]
          rfl
    | some colon =>
      rw [wordsLoop_next hcolon] at h
      obtain ⟨hsplit, hfree⟩ := findIdx?_split hcolon
      have hparts : text.splitOn 58 = text.take colon :: (text.drop (colon + 1)).splitOn 58 := by
        conv_lhs => rw [hsplit]
        exact List.splitOn_append_cons_self_of_not_mem hfree _
      rw [hparts, List.map_cons, List.sum_cons]
      by_cases hempty : text.take colon = []
      · simp [hempty] at h
      · rw [if_neg (by simp [hempty])] at h
        split_ifs at h with hdot hlast
        obtain ⟨word, hgroup, hmore⟩ := Option.bind_eq_some_iff.mp h
        obtain ⟨rest, hrest, rfl⟩ := Option.map_eq_some_iff.mp hmore
        have hcount := ih hrest
        have hword : groupWords (text.take colon) = 1 := if_neg hdot
        rw [List.length_append, group_eq hgroup, hword, hcount, wordBytes]
        simp only [List.length_cons, List.length_nil]
        omega

lemma words_count {text bytes : Bytes} {allowV4 : Bool} (h : words text allowV4 = some bytes) :
    bytes.length = 2 * wordCount text := by
  unfold words at h
  unfold wordCount
  split_ifs at h ⊢ with hempty
  · cases h
    rfl
  · exact wordsLoop_count h

lemma v6_eightWords {text bytes : Bytes} (h : v6 text = some bytes) : EightWords text ∧ bytes.length = 16 := by
  unfold v6 at h
  unfold EightWords
  cases hfind : find [58, 58] text with
  | none =>
    rw [hfind] at h
    simp only [Option.bind_eq_bind, Option.bind_eq_some_iff] at h
    obtain ⟨all, hall, h⟩ := h
    split_ifs at h with hlength
    cases h
    have hcount := words_count hall
    exact ⟨by dsimp only; omega, hlength⟩
  | some compressed =>
    rw [hfind] at h
    dsimp only at h
    split_ifs at h with hagain
    simp only [Option.bind_eq_bind, Option.bind_eq_some_iff] at h
    obtain ⟨left, hleft, right, hright, h⟩ := h
    split_ifs at h with hmany
    cases h
    have hl := words_count hleft
    have hr := words_count hright
    refine ⟨by dsimp only; omega, ?_⟩
    simp only [List.length_append, List.length_replicate]
    omega

end Split

/-- `a'` is `a` with the words of `bytes` behind. -/
structure Stored (a a' : WordArray) (bytes : Bytes) : Prop where
  words : a'.words.length = 8
  room : a'.count ≤ 8
  count : 2 * a'.count = 2 * a.count + bytes.length
  front : (a'.words.take a'.count).flatMap wordBytes = (a.words.take a.count).flatMap wordBytes ++ bytes
  back : a'.words.drop a'.count = a.words.drop a'.count

section Writes

lemma Stored.refl {a : WordArray} (hwords : a.words.length = 8) (hroom : a.count ≤ 8) : Stored a a [] := by
  constructor
  · exact hwords
  · exact hroom
  · simp
  · simp
  · rfl

lemma Stored.trans {a b c : WordArray} {x y : Bytes} (h : Stored a b x) (h' : Stored b c y) : Stored a c (x ++ y) := by
  obtain ⟨k, hk⟩ : ∃ k, c.count = b.count + k := ⟨c.count - b.count, by have := h'.count; omega⟩
  constructor
  · exact h'.words
  · exact h'.room
  · rw [h'.count, h.count, List.length_append]
    omega
  · rw [h'.front, h.front, List.append_assoc]
  · rw [h'.back, hk, ← List.drop_drop, h.back, List.drop_drop]

lemma push_stored {a : WordArray} (hwords : a.words.length = 8) (hroom : a.count < 8) (value : ℕ) :
    ∃ a', a.push value = some a' ∧ Stored a a' (wordBytes value) := by
  refine ⟨⟨a.words.set a.count value, a.count + 1⟩, ?_, ?_⟩
  · rw [WordArray.push, if_pos (by omega)]
  · have htake : (a.words.set a.count value).take (a.count + 1) = a.words.take a.count ++ [value] := by
      rw [List.take_add_one, List.take_set_of_le le_rfl, List.getElem?_set_self (by omega)]
      rfl
    constructor
    · simpa using hwords
    · exact hroom
    · simp only [wordBytes, List.length_cons, List.length_nil]
      omega
    · dsimp only
      rw [htake, List.flatMap_append]
      simp
    · dsimp only
      rw [List.drop_set_of_lt (Nat.lt_succ_self _)]

lemma pushQuad_stored {a : WordArray} (hwords : a.words.length = 8) (hroom : a.count ≤ 6) {bytes : Bytes}
    (hbytes : bytes.length = 4) : ∃ a', a.pushQuad bytes = some a' ∧ Stored a a' bytes := by
  obtain ⟨b₀, b₁, b₂, b₃, rfl⟩ := four_bytes hbytes
  obtain ⟨b, hb, hstored⟩ := push_stored hwords (by omega) (wordAt [b₀, b₁, b₂, b₃] 0)
  have hcount := hstored.count
  simp only [wordBytes, List.length_cons, List.length_nil] at hcount
  obtain ⟨c, hc, hstored'⟩ := push_stored hstored.words (by omega) (wordAt [b₀, b₁, b₂, b₃] 1)
  refine ⟨c, ?_, ?_⟩
  · rw [WordArray.pushQuad, hb, Option.bind_some, hc]
  · have htrans := hstored.trans hstored'
    have hfirst : wordAt [b₀, b₁, b₂, b₃] 0 = b₀.toNat * 256 + b₁.toNat := rfl
    have hsecond : wordAt [b₀, b₁, b₂, b₃] 1 = b₂.toNat * 256 + b₃.toNat := rfl
    rw [hfirst, hsecond, wordBytes_pair, wordBytes_pair] at htrans
    exact htrans

lemma wordsInto_last {text : Bytes} (h : text.findIdx? (· = 58) = none) (allowV4 : Bool) (a : WordArray) :
    wordsInto allowV4 text a =
      if text = [] || a.count = 8 then some (false, a)
      else if text.contains 46 then
        if !allowV4 || 6 < a.count then some (false, a)
        else
          match v4 text with
          | none => some (false, a)
          | some bytes => (a.pushQuad bytes).map (true, ·)
      else if (group text).isNone then some (false, a)
      else (a.push (hexValue text)).map (true, ·) := by
  rw [wordsInto]
  split
  · rfl
  · rename_i heq
    rw [h] at heq
    cases heq

lemma wordsInto_next {text : Bytes} {colon : ℕ} (h : text.findIdx? (· = 58) = some colon) (allowV4 : Bool)
    (a : WordArray) :
    wordsInto allowV4 text a =
      if text.take colon = [] || a.count = 8 then some (false, a)
      else if (text.take colon).contains 46 then some (false, a)
      else if (group (text.take colon)).isNone then some (false, a)
      else
        (a.push (hexValue (text.take colon))).bind fun a =>
          if text.drop (colon + 1) = [] then some (false, a) else wordsInto allowV4 (text.drop (colon + 1)) a := by
  rw [wordsInto]
  split
  · rename_i heq
    rw [h] at heq
    cases heq
  · rename_i found heq
    rw [h] at heq
    cases heq
    rfl

/-- What a run of the loop has to be, next to what `wordsLoop` reads. -/
def Agrees (a : WordArray) (run : Option (Bool × WordArray)) (bytes? : Option Bytes) : Prop :=
  ∃ read, run = some read ∧ (∀ bytes, bytes? = some bytes → read.1 = true ∧ Stored a read.2 bytes) ∧
    (bytes? = none → read.1 = false)

lemma Agrees.refused (a : WordArray) : Agrees a (some (false, a)) none := ⟨_, rfl, nofun, fun _ => rfl⟩

lemma Agrees.stored {a a' : WordArray} {bytes : Bytes} (h : Stored a a' bytes) :
    Agrees a (some (true, a')) (some bytes) := by
  refine ⟨_, rfl, ?_, nofun⟩
  intro bytes' heq
  cases heq
  exact ⟨rfl, h⟩

lemma wordsInto_agrees (allowV4 : Bool) (n : ℕ) : ∀ (text : Bytes) (a : WordArray), text.length ≤ n →
    a.words.length = 8 → a.count ≤ 8 →
      Agrees a (wordsInto allowV4 text a) (wordsLoop allowV4 (8 - a.count) text) := by
  induction n with
  | zero =>
    intro text a hlength hwords hroom
    obtain rfl : text = [] := List.length_eq_zero_iff.mp (by omega)
    rw [wordsInto_last rfl, wordsLoop_last rfl, if_pos (by simp), if_pos (.inl rfl)]
    apply Agrees.refused
  | succ n ih =>
    intro text a hlength hwords hroom
    cases hcolon : text.findIdx? (· = 58) with
    | none =>
      rw [wordsInto_last hcolon, wordsLoop_last hcolon]
      by_cases hstop : text = [] ∨ a.count = 8
      · rw [if_pos (by simpa using hstop), if_pos (hstop.imp_right fun h => by omega)]
        apply Agrees.refused
      · have hstop' : ¬(text = [] ∨ 8 - a.count = 0) := fun h => hstop (h.imp_right fun h => by omega)
        have hfull : a.count ≠ 8 := fun h => hstop (.inr h)
        rw [if_neg (by simpa using hstop), if_neg hstop']
        by_cases hdot : text.contains 46 = true
        · rw [if_pos hdot, if_pos hdot]
          have hquad : decide (8 - a.count < 2) = decide (6 < a.count) := by
            rw [decide_eq_decide]
            omega
          rw [hquad]
          by_cases hrefused : (!allowV4 || decide (6 < a.count)) = true
          · rw [if_pos hrefused, if_pos hrefused]
            apply Agrees.refused
          · rw [if_neg hrefused, if_neg hrefused]
            cases hread : v4 text with
            | none => apply Agrees.refused
            | some bytes =>
              have hroom' : a.count ≤ 6 := by
                simp only [Bool.or_eq_true, decide_eq_true_eq, not_or, not_lt] at hrefused
                exact hrefused.2
              obtain ⟨a', hpush, hstored⟩ := pushQuad_stored hwords hroom' (v4Loop_length hread)
              dsimp only
              rw [hpush]
              exact .stored hstored
        · rw [if_neg hdot, if_neg hdot]
          cases hgroup : group text with
          | none => apply Agrees.refused
          | some word =>
            obtain ⟨a', hpush, hstored⟩ := push_stored hwords (by omega) (hexValue text)
            rw [if_neg (by simp), hpush, group_eq hgroup]
            exact .stored hstored
    | some colon =>
      rw [wordsInto_next hcolon, wordsLoop_next hcolon]
      by_cases hstop : text.take colon = [] ∨ a.count = 8
      · rw [if_pos (by simpa using hstop), if_pos (hstop.imp_right fun h => by omega)]
        apply Agrees.refused
      · have hstop' : ¬(text.take colon = [] ∨ 8 - a.count = 0) := fun h => hstop (h.imp_right fun h => by omega)
        have hfull : a.count ≠ 8 := fun h => hstop (.inr h)
        rw [if_neg (by simpa using hstop), if_neg hstop']
        by_cases hdot : (text.take colon).contains 46 = true
        · rw [if_pos hdot, if_pos hdot]
          apply Agrees.refused
        · rw [if_neg hdot, if_neg hdot]
          cases hgroup : group (text.take colon) with
          | none =>
            rw [if_pos (by simp), Option.bind_none, ite_self]
            apply Agrees.refused
          | some word =>
            obtain ⟨a', hpush, hstored⟩ := push_stored hwords (by omega) (hexValue (text.take colon))
            rw [if_neg (by simp), hpush, Option.bind_some, Option.bind_some]
            by_cases hlast : text.drop (colon + 1) = []
            · rw [if_pos hlast, if_pos hlast]
              exact ⟨_, rfl, nofun, fun _ => rfl⟩
            · rw [if_neg hlast, if_neg hlast]
              have hcount := hstored.count
              simp only [wordBytes, List.length_cons, List.length_nil] at hcount
              have hrest := ih (text.drop (colon + 1)) a' (by rw [List.length_drop]; omega) hstored.words hstored.room
              rw [show 8 - a'.count = 8 - a.count - 1 by omega] at hrest
              obtain ⟨read, hread, hsome, hnone⟩ := hrest
              refine ⟨read, hread, ?_, ?_⟩
              · intro bytes hbytes
                obtain ⟨tail, htail, rfl⟩ := Option.map_eq_some_iff.mp hbytes
                obtain ⟨hok, hmore⟩ := hsome tail htail
                refine ⟨hok, ?_⟩
                rw [group_eq hgroup]
                exact hstored.trans hmore
              · intro hrefused
                apply hnone
                simpa using hrefused

lemma intoWords_agrees (text : Bytes) (allowV4 : Bool) :
    Agrees .empty (intoWords text allowV4 .empty) (words text allowV4) := by
  unfold intoWords words
  by_cases hempty : text = []
  · rw [if_pos hempty, if_pos hempty]
    exact .stored (.refl rfl (by decide))
  · rw [if_neg hempty, if_neg hempty]
    exact wordsInto_agrees allowV4 text.length text .empty le_rfl rfl (by decide)

lemma Stored.ofEmpty {a : WordArray} {bytes : Bytes} (h : Stored .empty a bytes) :
    bytes.length = 2 * a.count ∧ (a.words.take a.count).flatMap wordBytes = bytes ∧
      a.words = a.words.take a.count ++ List.replicate (8 - a.count) 0 := by
  have hcount := h.count
  have hfront := h.front
  have hback := h.back
  simp only [WordArray.empty, Nat.mul_zero, Nat.zero_add, List.take_zero, List.flatMap_nil, List.nil_append,
    List.drop_replicate] at hcount hfront hback
  refine ⟨hcount.symm, hfront, ?_⟩
  rw [← hback, List.take_append_drop]

lemma copied {left right : WordArray} {lbytes rbytes : Bytes} {ok : Bool} (hleft : Stored .empty left lbytes)
    (hright : Stored .empty right rbytes) (hok : ok = true) : ∃ stored : Option (List ℕ),
      (if (!ok || 8 ≤ left.count + right.count) = true then some none
        else (copyTo (right.words.take right.count) left.words (8 - right.count)).map some) = some stored ∧
      stored.map (·.flatMap wordBytes) =
        (if 16 ≤ lbytes.length + rbytes.length then none
          else some (lbytes ++ List.replicate (16 - lbytes.length - rbytes.length) 0 ++ rbytes)) ∧
      ∀ words ∈ stored, words.length = 8 := by
  obtain ⟨hllength, hlfront, hlall⟩ := hleft.ofEmpty
  obtain ⟨hrlength, hrfront, -⟩ := hright.ofEmpty
  by_cases hmany : 8 ≤ left.count + right.count
  · exact ⟨none, by simp [hmany], by rw [if_pos (by omega)]; rfl, nofun⟩
  · have hrtake : (right.words.take right.count).length = right.count := by
      rw [List.length_take, hright.words]
      omega
    have hltake : (left.words.take left.count).length = left.count := by
      rw [List.length_take, hleft.words]
      omega
    have hfront : left.words.take (8 - right.count) =
        left.words.take left.count ++ List.replicate (8 - right.count - left.count) 0 := by
      conv_lhs => rw [hlall]
      rw [List.take_append, hltake, List.take_of_length_le (by rw [hltake]; omega), List.take_replicate]
      congr 2
      omega
    have hcopy : copyTo (right.words.take right.count) left.words (8 - right.count) =
        some (left.words.take left.count ++ List.replicate (8 - right.count - left.count) 0 ++
          right.words.take right.count) := by
      have hend : left.words.drop (8 - right.count + right.count) = [] := by
        apply List.drop_eq_nil_of_le
        rw [hleft.words]
        omega
      rw [copyTo, if_pos (by rw [hrtake, hleft.words]; omega), overwrite, hrtake, hend, hfront, List.append_nil]
    refine ⟨_, by rw [if_neg (by simp [hok, hmany]), hcopy]; rfl, ?_, ?_⟩
    · rw [if_neg (by omega), Option.map_some, List.flatMap_append, List.flatMap_append, flatMap_zeros, hlfront, hrfront]
      congr 3
      congr 1
      omega
    · intro ws hws
      cases hws
      rw [List.length_append, List.length_append, List.length_replicate, hrtake, hltake]
      omega

lemma v6Into_agrees (text : Bytes) : ∃ stored, v6Into text = some stored ∧
    stored.map (·.flatMap wordBytes) = v6 text ∧ ∀ words ∈ stored, words.length = 8 := by
  unfold v6Into v6
  cases find [58, 58] text with
  | none =>
    obtain ⟨read, hread, hsome, hnone⟩ := intoWords_agrees text true
    dsimp only
    rw [hread]
    cases hwords : words text true with
    | none =>
      rw [hwords] at hnone
      refine ⟨none, ?_, rfl, nofun⟩
      simp [hnone rfl]
    | some bytes =>
      obtain ⟨hok, hstored⟩ := hsome bytes hwords
      obtain ⟨hlength, hfront, hall⟩ := hstored.ofEmpty
      by_cases hcount : read.2.count = 8
      · refine ⟨some read.2.words, by simp [hok, hcount], ?_, ?_⟩
        · have hfull : read.2.words.take read.2.count = read.2.words := by
            rw [hcount, ← hstored.words, List.take_length]
          rw [hfull] at hfront
          simp [hfront, hlength, hcount]
        · intro ws hws
          cases hws
          exact hstored.words
      · refine ⟨none, by simp [hcount], ?_, nofun⟩
        have hshort : bytes.length ≠ 16 := by omega
        simp [hshort]
  | some compressed =>
    dsimp only
    by_cases hagain : (find [58, 58] (text.drop (compressed + 2))).isSome = true
    · rw [if_pos hagain, if_pos hagain]
      exact ⟨none, rfl, rfl, nofun⟩
    · rw [if_neg hagain, if_neg hagain]
      obtain ⟨left, hleft, hlsome, hlnone⟩ := intoWords_agrees (text.take compressed) false
      obtain ⟨right, hright, hrsome, hrnone⟩ := intoWords_agrees (text.drop (compressed + 2)) true
      rw [hleft, Option.bind_some]
      cases hlwords : words (text.take compressed) false with
      | none =>
        rw [hlwords] at hlnone
        refine ⟨none, ?_, rfl, nofun⟩
        simp [hlnone rfl]
      | some lbytes =>
        obtain ⟨hlok, hlstored⟩ := hlsome lbytes hlwords
        rw [hlok, hright, Option.bind_some, if_neg (by simp)]
        cases hrwords : words (text.drop (compressed + 2)) true with
        | none =>
          rw [hrwords] at hrnone
          refine ⟨none, ?_, rfl, nofun⟩
          simp [hrnone rfl]
        | some rbytes =>
          obtain ⟨hrok, hrstored⟩ := hrsome rbytes hrwords
          exact copied hlstored hrstored hrok

end Writes

def bits (b : Byte) : List Bool := (List.range 8).map fun i => b.toNat.testBit (7 - i)

def IpAddress.bits (address : IpAddress) : List Bool := address.bytes.flatMap Core.bits

section Bits

lemma prefixMask_testBit (remaining : ℕ) {i : ℕ} (hi : i < 8) :
    (prefixMask remaining).toNat.testBit i = decide (8 ≤ remaining + i) := by
  unfold prefixMask
  by_cases hfull : 8 ≤ remaining
  · have hones : ∀ i < 8, (255 : Byte).toNat.testBit i = true := by decide
    rw [if_pos hfull, hones i hi]
    simp only [true_eq_decide_iff]
    omega
  · have hmask : ∀ remaining < 8, ∀ i < 8,
        (UInt8.ofNat ((255 <<< (8 - remaining)) % 256)).toNat.testBit i = decide (8 ≤ remaining + i) := by decide
    rw [if_neg hfull]
    exact hmask remaining (by omega) i hi

lemma and_eq_iff (a b m : Byte) :
    a &&& m = b &&& m ↔ ∀ i < 8, m.toNat.testBit i = true → a.toNat.testBit i = b.toNat.testBit i := by
  constructor
  · intro h i _ hm
    have hbit := congrArg (fun x : Byte => x.toNat.testBit i) h
    simpa [UInt8.toNat_and, Nat.testBit_and, hm] using hbit
  · intro h
    apply UInt8.toNat_inj.mp
    apply Nat.eq_of_testBit_eq
    intro i
    rw [UInt8.toNat_and, UInt8.toNat_and, Nat.testBit_and, Nat.testBit_and]
    by_cases hi : i < 8
    · cases hm : m.toNat.testBit i with
      | false => simp
      | true => rw [h i hi hm]
    · have hm : m.toNat.testBit i = false := by
        apply Nat.testBit_lt_two_pow
        exact lt_of_lt_of_le m.toNat_lt (Nat.pow_le_pow_right (by decide) (by omega))
      simp [hm]

lemma bits_length (b : Byte) : (bits b).length = 8 := by simp [bits]

lemma prefixMask_eq_iff (remaining : ℕ) (a b : Byte) :
    a &&& prefixMask remaining = b &&& prefixMask remaining ↔ (bits a).take remaining = (bits b).take remaining := by
  rw [and_eq_iff, bits, bits, ← List.map_take, ← List.map_take, List.take_range, List.map_inj_left]
  constructor
  · intro h i hi
    rw [List.mem_range] at hi
    apply h (7 - i) (by omega)
    rw [prefixMask_testBit remaining (by omega), decide_eq_true_eq]
    omega
  · intro h i hi hm
    rw [prefixMask_testBit remaining hi, decide_eq_true_eq] at hm
    have hbit := h (7 - i) (by rw [List.mem_range]; omega)
    rwa [show 7 - (7 - i) = i by omega] at hbit

lemma samePrefix_iff (remaining : ℕ) (as bs : Bytes) (hlength : as.length = bs.length) :
    samePrefix remaining as bs = true ↔ (as.flatMap bits).take remaining = (bs.flatMap bits).take remaining := by
  induction as generalizing remaining bs with
  | nil =>
    obtain rfl : bs = [] := List.length_eq_zero_iff.mp hlength.symm
    simp [samePrefix]
  | cons a as ih =>
    cases bs with
    | nil => cases hlength
    | cons b bs =>
      rw [List.length_cons, List.length_cons, Nat.add_right_cancel_iff] at hlength
      have htail := ih (remaining - 8) bs hlength
      rw [samePrefix, Bool.and_eq_true, beq_iff_eq, htail, prefixMask_eq_iff, List.flatMap_cons, List.flatMap_cons,
        List.take_append, List.take_append, bits_length, bits_length]
      constructor
      · rintro ⟨hhead, hrest⟩
        rw [hhead, hrest]
      · intro h
        apply List.append_inj h
        simp [bits_length]

lemma samePrefix_maskBytes (remaining : ℕ) (as bs : Bytes) :
    samePrefix remaining as (maskBytes remaining bs) = samePrefix remaining as bs := by
  induction as generalizing remaining bs with
  | nil => cases bs <;> rfl
  | cons a as ih =>
    cases bs with
    | nil => rfl
    | cons b bs => rw [maskBytes, samePrefix, samePrefix, ih, UInt8.and_assoc, UInt8.and_self]

end Bits

section Parsed

lemma decimal_lt {limit n : ℕ} {text : Bytes} (h : decimal limit text = some n) : n < limit := by
  unfold decimal at h
  split_ifs at h with hlimit
  cases h
  simp only [Bool.and_eq_true, decide_eq_true_eq] at hlimit
  exact hlimit.2

namespace IpAddress

lemma built_v4 {bytes : Bytes} (h : bytes.length = 4) : Built ⟨.v4, bytes, 0⟩ := by
  apply Or.inr
  exact ⟨.v4, bytes, 0, by decide, by simp [fromBytes, h]⟩

lemma built_v6 {bytes : Bytes} {scope : ℕ} (h : bytes.length = 16) (hscope : scope < 2 ^ 32) :
    Built ⟨.v6, bytes, scope⟩ := by
  apply Or.inr
  exact ⟨.v6, bytes, scope, hscope, by simp [fromBytes, h]⟩

lemma parse_ok {text : Bytes} {a : IpAddress} (h : parse text = .ok a) :
    (58 ∉ text ∧ a.family = .v4 ∧ a.Built) ∨
      (58 ∈ text ∧ a.family = .v6 ∧ a.Built ∧ v6 (upTo text (text.findIdx? (· = 37))) = some a.bytes) := by
  unfold parse at h
  dsimp only at h
  by_cases hsize : (decide (text = []) || decide (64 < text.length)) = true
  · rw [if_pos hsize] at h
    cases h
  · rw [if_neg hsize] at h
    by_cases hcolon : (!text.contains 58) = true
    · rw [if_pos hcolon] at h
      cases hread : v4 text with
      | none =>
        rw [hread] at h
        cases h
      | some bytes =>
        rw [hread] at h
        cases h
        exact .inl ⟨by simpa using hcolon, rfl, built_v4 (v4Loop_length hread)⟩
    · rw [if_neg hcolon] at h
      have hmem : 58 ∈ text := by simpa using hcolon
      apply Or.inr
      cases hzone : text.findIdx? (· = 37) with
      | none =>
        rw [hzone] at h
        cases hread : v6 text with
        | none =>
          simp only [hread] at h
          cases h
        | some bytes =>
          simp only [hread] at h
          cases h
          exact ⟨hmem, rfl, built_v6 (v6_eightWords hread).2 (by decide), hread⟩
      | some zone =>
        rw [hzone] at h
        cases hscope : decimal (2 ^ 32) (text.drop (zone + 1)) with
        | none =>
          simp only [hscope] at h
          cases h
        | some scope =>
          cases hread : v6 (text.take zone) with
          | none =>
            simp only [hscope, hread] at h
            cases h
          | some bytes =>
            simp only [hscope, hread] at h
            cases h
            exact ⟨hmem, rfl, built_v6 (v6_eightWords hread).2 (decimal_lt hscope), hread⟩

lemma parse_built {text : Bytes} {a : IpAddress} (h : parse text = .ok a) : a.Built ∧ a.family ≠ .unspecified := by
  obtain ⟨_, hfamily, hbuilt⟩ | ⟨_, hfamily, hbuilt, _⟩ := parse_ok h
  · exact ⟨hbuilt, by rw [hfamily]; decide⟩
  · exact ⟨hbuilt, by rw [hfamily]; decide⟩

lemma Built.length_eq {a b : IpAddress} (ha : a.Built) (hb : b.Built) (h : a.family = b.family) :
    a.bytes.length = b.bytes.length := by
  have hlength : ∀ c : IpAddress, c.Built → c.bytes.length =
      if c.family = .v4 then 4 else if c.family = .v6 then 16 else 0 := by
    intro c hc
    obtain rfl | ⟨bytes, hbytes, rfl⟩ | ⟨bytes, scope, hbytes, -, rfl⟩ := hc.cases
    · rfl
    · exact hbytes
    · exact hbytes
  rw [hlength a ha, hlength b hb, h]

end IpAddress

lemma IpNetwork.parse_ok {text : Bytes} {network : IpNetwork} (h : parse text = .ok network) :
    ∃ slash written, text.findIdx? (· = 47) = some slash ∧ IpAddress.parse (text.take slash) = .ok written ∧
      decimal (2 ^ 32) (text.drop (slash + 1)) = some network.prefixLength ∧
      network.prefixLength ≤ (if written.family = .v4 then 32 else 128) ∧
      network.address = { written with bytes := maskBytes network.prefixLength written.bytes } := by
  unfold parse at h
  dsimp only at h
  cases hslash : text.findIdx? (· = 47) with
  | none =>
    rw [hslash] at h
    cases h
  | some slash =>
    rw [hslash] at h
    dsimp only at h
    by_cases hzone : text.contains 37 = true
    · rw [if_pos hzone] at h
      cases h
    · rw [if_neg hzone] at h
      cases hwritten : IpAddress.parse (text.take slash) with
      | error status =>
        simp only [hwritten] at h
        cases h
      | ok written =>
        cases hbits : decimal (2 ^ 32) (text.drop (slash + 1)) with
        | none =>
          simp only [hwritten, hbits] at h
          cases h
        | some n =>
          simp only [hwritten, hbits] at h
          by_cases hmany : (if written.family = .v4 then 32 else 128) < n
          · rw [if_pos hmany] at h
            cases h
          · rw [if_neg hmany] at h
            cases h
            exact ⟨slash, written, rfl, hwritten, hbits, not_lt.mp hmany, rfl⟩

lemma IpNetwork.contains_iff {text : Bytes} {network : IpNetwork} {slash : ℕ} {written : IpAddress}
    (hwritten : IpAddress.parse (text.take slash) = .ok written)
    (haddress : network.address = { written with bytes := maskBytes network.prefixLength written.bytes })
    {a : IpAddress} (ha : a.Built) :
    network.contains a = true ↔
      a.family = written.family ∧ a.bits.take network.prefixLength = written.bits.take network.prefixLength := by
  obtain ⟨hbuilt, hfamily⟩ := IpAddress.parse_built hwritten
  unfold IpNetwork.contains
  rw [haddress]
  dsimp only
  rw [samePrefix_maskBytes, Bool.and_eq_true, Bool.and_eq_true, decide_eq_true_eq, decide_eq_true_eq]
  constructor
  · rintro ⟨⟨_, hsame⟩, hprefix⟩
    exact ⟨hsame, (samePrefix_iff _ _ _ (ha.length_eq hbuilt hsame)).mp hprefix⟩
  · rintro ⟨hsame, hprefix⟩
    exact ⟨⟨hfamily, hsame⟩, (samePrefix_iff _ _ _ (ha.length_eq hbuilt hsame)).mpr hprefix⟩

/-- The text of addresses, the bits of networks and the words of `Parse`. -/
theorem endpoint_text_exact :
    (∀ a : IpAddress, a.Built → a.family ≠ .unspecified → IpAddress.parse a.toString = .ok a) ∧
    (∀ a b : IpAddress, a.Built → b.Built → a.toString = b.toString → a = b) ∧
    (∀ text network, IpNetwork.parse text = .ok network → ∃ slash written,
      text.findIdx? (· = 47) = some slash ∧ IpAddress.parse (text.take slash) = .ok written ∧
      decimal (2 ^ 32) (text.drop (slash + 1)) = some network.prefixLength ∧
      network.prefixLength ≤ (if written.family = .v4 then 32 else 128) ∧
      ∀ a : IpAddress, a.Built → (network.contains a = true ↔
        a.family = written.family ∧ a.bits.take network.prefixLength = written.bits.take network.prefixLength)) ∧
    (∀ text, ∃ stored, v6Into text = some stored ∧ stored.map (·.flatMap wordBytes) = v6 text ∧
      ∀ words ∈ stored, words.length = 8) ∧
    (∀ text, 58 ∈ text → ¬EightWords (upTo text (text.findIdx? (· = 37))) → ∃ status, IpAddress.parse text = .error status) := by
  refine ⟨?_, ?_, ?_, v6Into_agrees, ?_⟩
  · intro a ha hfamily
    exact ha.parse_toString hfamily
  · intro a b ha hb h
    exact ha.toString_inj hb h
  · intro text network h
    obtain ⟨slash, written, hslash, hwritten, hbits, hbound, haddress⟩ := IpNetwork.parse_ok h
    refine ⟨slash, written, hslash, hwritten, hbits, hbound, ?_⟩
    intro a ha
    exact IpNetwork.contains_iff hwritten haddress ha
  · intro text hcolon hwords
    cases hparse : IpAddress.parse text with
    | error status => exact ⟨status, rfl⟩
    | ok a =>
      obtain ⟨hfree, -⟩ | ⟨_, _, _, hread⟩ := IpAddress.parse_ok hparse
      · exact absurd hcolon hfree
      · exact absurd (v6_eightWords hread).1 hwords

theorem endpoint_text_exact_zone :
    IpAddress.parse (ascii "fe80::1:0:0:7%4294967295") =
      .ok ⟨.v6, [254, 128, 0, 0, 0, 0, 0, 0, 0, 1, 0, 0, 0, 0, 0, 7], 4294967295⟩ ∧
    ∃ network, IpNetwork.parse (ascii "10.1.200.9/19") = .ok network ∧
      network.contains ⟨.v4, [10, 1, 192, 0], 0⟩ = true := by
  have hbuilt : IpAddress.Built ⟨.v6, [254, 128, 0, 0, 0, 0, 0, 0, 0, 1, 0, 0, 0, 0, 0, 7], 4294967295⟩ :=
    IpAddress.built_v6 rfl (by decide)
  have htext : IpAddress.toString ⟨.v6, [254, 128, 0, 0, 0, 0, 0, 0, 0, 1, 0, 0, 0, 0, 0, 7], 4294967295⟩ =
      ascii "fe80::1:0:0:7%4294967295" := by
    rw [@ascii_eq "fe80::1:0:0:7%4294967295" _ rfl]
    decide +kernel
  have hnetwork := @ascii_eq "10.1.200.9/19" _ rfl
  rw [hnetwork]
  refine ⟨?_, ⟨⟨.v4, [10, 1, 192, 0], 0⟩, 19⟩, by decide +kernel, ?_⟩
  · rw [← htext]
    exact endpoint_text_exact.1 _ hbuilt (by decide)
  · obtain ⟨slash, written, hslash, hwritten, -, -, hcontains⟩ := endpoint_text_exact.2.2.1 (ascii "10.1.200.9/19")
      ⟨⟨.v4, [10, 1, 192, 0], 0⟩, 19⟩ (by rw [hnetwork]; decide +kernel)
    rw [hnetwork] at hslash hwritten
    obtain rfl : 10 = slash := by
      have hfind : (ascii "10.1.200.9/19").findIdx? (· = 47) = some 10 := by
        rw [hnetwork]
        decide +kernel
      rw [hnetwork] at hfind
      exact Option.some.inj (hfind.symm.trans hslash)
    obtain rfl : (⟨.v4, [10, 1, 200, 9], 0⟩ : IpAddress) = written := by
      have hparse : IpAddress.parse ((ascii "10.1.200.9/19").take 10) = .ok ⟨.v4, [10, 1, 200, 9], 0⟩ := by
        rw [hnetwork]
        decide +kernel
      rw [hnetwork] at hparse
      rw [hparse] at hwritten
      exact Except.ok.inj hwritten
    exact (hcontains _ (IpAddress.built_v4 rfl)).mpr (by decide)

end Parsed

end ServerCore.Core
