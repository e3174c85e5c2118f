import ServerCore.Core.Charconv
import ServerCore.Core.Endpoint
import ServerCore.Foundations.CivilDate
import ServerCore.Web.HttpParser

/-! Conditional requests and byte ranges over a file as `PlanFileResponse` decides them. -/

namespace ServerCore.Web

open ServerCore.Core ServerCore.Foundations

def weakTag (tag : Bytes) : Bool := startsWith tag (ascii "W/")

def withoutWeak (tag : Bytes) : Bytes := if weakTag tag then tag.drop 2 else tag

def validEntityTag (tag : Bytes) : Bool :=
  let tag := withoutWeak tag
  2 ≤ tag.length && tag.head? = some 34 && tag.getLast? = some 34 &&
    (tag.drop 1).dropLast.all fun b => 0x21 ≤ b && b ≠ 0x22 && b ≠ 0x7f

def sameTag (weak : Bool) (tag actual : Bytes) : Bool :=
  if weak then withoutWeak tag = withoutWeak actual else tag = actual && !weakTag tag && !weakTag actual


def matchTags (actual : Bytes) (weak matched : Bool) (list : Bytes) : Bool :=
  if list = [] then matched
  else
    let start := if weakTag (trim list) then 2 else 0
    if (trim list)[start]? ≠ some 34 then false
    else
      match ((trim list).drop (start + 1)).findIdx? (· = 34) with
      | none => false
      | some n =>
        let tag := (trim list).take (start + n + 2)
        if !validEntityTag tag then false
        else
          match h : trim ((trim list).drop (start + n + 2)) with
          | [] => matched || sameTag weak tag actual
          | b :: rest => if b ≠ 44 then false else matchTags actual weak (matched || sameTag weak tag actual) rest
termination_by list.length
decreasing_by
  have hlist := trim_length_le list
  have hrest := trim_length_le ((trim list).drop (start + n + 2))
  rw [h, List.length_cons, List.length_drop] at hrest
  omega

def entityTagMatches (list actual : Bytes) (weak : Bool) : Bool :=
  if trim list = [42] then true else matchTags actual weak false (trim list)

inductive FileDateFormat
  | imfFixdate
  | rfc850
  | asctime
  deriving DecidableEq, Repr

/-- `std::tm`. -/
structure Tm where
  sec : ℤ
  min : ℤ
  hour : ℤ
  mday : ℤ
  mon : ℤ
  year : ℤ
  deriving DecidableEq, Repr

section Dates

variable (getTime : FileDateFormat → Bytes → Option Tm)

/-- One turn of the loop of `ParseFileDate`: `getTime` is what `std::get_time` reads when it
reads all of the text, and `current` the year of the day. -/
def fileDateWith (current : ℤ) (value : Bytes) (format : FileDateFormat) : Option ℤ := do
  let parsed ← getTime format value
  let full := parsed.year + 1900
  let recent := (current.tdiv 100) * 100 + full.tmod 100
  let year := if format = .rfc850 then (if current + 50 < recent then recent - 100 else recent) else full
  let date : CivilDate := ⟨year, ((parsed.mon + 1) % 256).toNat, (parsed.mday % 256).toNat⟩
  if 59 < parsed.sec || year < 1601 || 9999 < year || !date.valid || parsed.hour < 0 || 23 < parsed.hour ||
      parsed.min < 0 || 59 < parsed.min || parsed.sec < 0 then none
  else some (date.toDays * 86400 + parsed.hour * 3600 + parsed.min * 60 + parsed.sec)

def parseFileDate (current : ℤ) (value : Bytes) : Option ℤ :=
  [.imfFixdate, .rfc850, .asctime].findSome? (fileDateWith getTime current value)

end Dates

structure FileResponsePlan where
  status : ℕ := 200
  offset : UInt64 := 0
  length : UInt64 := 0
  contentRange : Bytes := []
  deriving DecidableEq

def joinedField (headers : List (Bytes × Bytes)) (name : Bytes) : Option Bytes :=
  headers.foldl (fun joined header =>
    if equalInsensitive header.1 name then
      some ((joined.map (· ++ [44])).getD [] ++ header.2)
    else joined) none

def wholeFile (size : UInt64) : FileResponsePlan := ⟨200, 0, size, []⟩

def integer (text : Bytes) : Option UInt64 := (decimal (2 ^ 64) text).map UInt64.ofNat

def selectRange (size : UInt64) (left right : Bytes) : FileResponsePlan :=
  if left = [] then
    match integer right with
    | none => wholeFile size
    | some last =>
      if last = 0 || size = 0 then { wholeFile size with status := 416 }
      else
        let offset := size - min size last
        { wholeFile size with status := 206, offset := offset, length := size - offset }
  else
    match integer left, (if right = [] then some 0 else integer right) with
    | some first, some last =>
      if right ≠ [] && last < first then wholeFile size
      else if size ≤ first then { wholeFile size with status := 416 }
      else
        { wholeFile size with
          status := 206
          offset := first
          length := (if right = [] then size - 1 else min last (size - 1)) - first + 1 }
    | _, _ => wholeFile size

def spelled (n : UInt64) : Bytes := toChars 10 n.toNat

def withContentRange (size : UInt64) (plan : FileResponsePlan) : FileResponsePlan :=
  if plan.status = 416 then { plan with length := 0, contentRange := ascii "bytes */" ++ spelled size }
  else if plan.status = 206 then
    { plan with
      contentRange := ascii "bytes " ++ spelled plan.offset ++ [45] ++ spelled (plan.offset + plan.length - 1) ++
        [47] ++ spelled size }
  else plan

def rangePlan (size : UInt64) (range : Bytes) : FileResponsePlan :=
  let value := trim range
  if value.length < 6 || !equalInsensitive (value.take 6) (ascii "bytes=") then wholeFile size
  else if (value.drop 6).contains 44 then wholeFile size
  else
    match (value.drop 6).findIdx? (· = 45) with
    | none => wholeFile size
    | some dash => withContentRange size (selectRange size ((value.drop 6).take dash) ((value.drop 6).drop (dash + 1)))

section Plan

variable (getTime : FileDateFormat → Bytes → Option Tm) (current : ℤ)

/-- `If-Match` and, without it, `If-Unmodified-Since`; `lastModified` counts seconds. -/
def unmodifiedStatus (request : HttpRequest) (entityTag : Bytes) (lastModified : ℤ) : ℕ :=
  match joinedField request.headers (ascii "if-match") with
  | some list => if entityTagMatches list entityTag false then 200 else 412
  | none =>
    match (joinedField request.headers (ascii "if-unmodified-since")).bind (parseFileDate getTime current) with
    | some date => if date < lastModified then 412 else 200
    | none => 200

def noneMatchStatus (request : HttpRequest) (entityTag : Bytes) (lastModified : ℤ) : ℕ :=
  let retrieval := request.method = ascii "GET" || request.method = ascii "HEAD"
  match joinedField request.headers (ascii "if-none-match") with
  | some list => if entityTagMatches list entityTag true then (if retrieval then 304 else 412) else 200
  | none =>
    if retrieval then
      match (joinedField request.headers (ascii "if-modified-since")).bind (parseFileDate getTime current) with
      | some date => if lastModified ≤ date then 304 else 200
      | none => 200
    else 200

def conditionStatus (request : HttpRequest) (entityTag : Bytes) (lastModified : ℤ) : ℕ :=
  let status := unmodifiedStatus getTime current request entityTag lastModified
  if status = 200 then noneMatchStatus getTime current request entityTag lastModified else status

def rangeAllowed (condition entityTag : Bytes) : Bool :=
  validEntityTag condition && !weakTag condition && !weakTag entityTag && condition = entityTag

def passedPlan (request : HttpRequest) (size : UInt64) (entityTag : Bytes) : FileResponsePlan :=
  if request.method ≠ ascii "GET" then wholeFile size
  else
    match joinedField request.headers (ascii "range") with
    | none => wholeFile size
    | some range =>
      match joinedField request.headers (ascii "if-range") with
      | some condition => if rangeAllowed condition entityTag then rangePlan size range else wholeFile size
      | none => rangePlan size range

def planFileResponse (request : HttpRequest) (size : UInt64) (entityTag : Bytes) (modified : ℤ) : FileResponsePlan :=
  let status := conditionStatus getTime current request entityTag (modified / 1000000000)
  if status ≠ 200 then { wholeFile size with status := status, length := 0 }
  else passedPlan request size entityTag

end Plan

inductive TagList : Bytes → List Bytes → Prop
  | nil : TagList [] []
  | last {list tag after : Bytes} : validEntityTag tag = true → trim list = tag ++ after → trim after = [] →
      TagList list [tag]
  | cons {list tag after rest : Bytes} {tags : List Bytes} : validEntityTag tag = true → trim list = tag ++ after →
      trim after = 44 :: rest → TagList rest tags → TagList list (tag :: tags)

section Tags

lemma validEntityTag_parts {tag : Bytes} (h : validEntityTag tag = true) : ∃ body, 34 ∉ body ∧
    tag = (if weakTag tag then ascii "W/" else []) ++ 34 :: (body ++ [34]) := by
  have hsplit : tag = (if weakTag tag then ascii "W/" else []) ++ withoutWeak tag := by
    unfold withoutWeak
    split_ifs with hweak
    · obtain ⟨rest, hrest⟩ := List.isPrefixOf_iff_prefix.mp hweak
      rw [← hrest]
      rfl
    · rfl
  unfold validEntityTag at h
  dsimp only at h
  simp only [Bool.and_eq_true, decide_eq_true_eq] at h
  obtain ⟨⟨⟨hlong, hfront⟩, hback⟩, hbody⟩ := h
  obtain ⟨rest, hrest⟩ : ∃ rest, withoutWeak tag = 34 :: rest := by
    cases hw : withoutWeak tag with
    | nil => simp [hw] at hfront
    | cons b rest =>
      rw [hw, List.head?_cons, Option.some.injEq] at hfront
      exact ⟨rest, by rw [hfront]⟩
  obtain hnil | ⟨body, b, hlast⟩ := rest.eq_nil_or_concat'
  · rw [hrest, hnil] at hlong
    exact absurd hlong (by decide)
  · rw [hrest, hlast] at hback hbody
    have hb : b = 34 := by
      rw [← List.cons_append, List.getLast?_concat] at hback
      exact Option.some.inj hback
    refine ⟨body, ?_, ?_⟩
    · intro hmem
      rw [List.all_eq_true] at hbody
      have hbyte := hbody 34 (by simpa using hmem)
      exact absurd hbyte (by decide)
    · rw [hb] at hlast
      rw [← hlast, ← hrest]
      exact hsplit

lemma tag_quotes {tag : Bytes} (h : validEntityTag tag = true) (after : Bytes) :
    ∃ n, (tag ++ after)[if weakTag (tag ++ after) then 2 else 0]? = some 34 ∧
      ((tag ++ after).drop ((if weakTag (tag ++ after) then 2 else 0) + 1)).findIdx? (· = 34) = some n ∧
      (if weakTag (tag ++ after) then 2 else 0) + n + 2 = tag.length := by
  obtain ⟨body, hbody, htag⟩ := validEntityTag_parts h
  have hweak : weakTag (tag ++ after) = weakTag tag := by
    unfold weakTag startsWith
    apply isPrefixOf_append
    rw [htag, List.length_append, List.length_cons, List.length_append]
    have htwo : (ascii "W/").length = 2 := rfl
    rw [htwo, List.length_singleton]
    omega
  rw [hweak]
  by_cases hw : weakTag tag = true
  · rw [if_pos hw] at htag ⊢
    rw [htag]
    refine ⟨body.length, rfl, ?_, ?_⟩
    · have hdrop : ((ascii "W/" ++ 34 :: (body ++ [34])) ++ after).drop (2 + 1) = body ++ 34 :: after := by
        simp [ascii]
      rw [hdrop, findIdx?_mid hbody]
    · simp [ascii]
      omega
  · rw [if_neg hw] at htag ⊢
    rw [htag]
    refine ⟨body.length, rfl, ?_, ?_⟩
    · have hdrop : (([] ++ 34 :: (body ++ [34])) ++ after).drop (0 + 1) = body ++ 34 :: after := by simp
      rw [hdrop, findIdx?_mid hbody]
    · simp

lemma matchTags_tag {actual list tag after : Bytes} {weak matched : Bool} (hne : list ≠ [])
    (htag : validEntityTag tag = true) (hlist : trim list = tag ++ after) :
    matchTags actual weak matched list =
      match trim after with
      | [] => matched || sameTag weak tag actual
      | b :: rest => if b ≠ 44 then false else matchTags actual weak (matched || sameTag weak tag actual) rest := by
  obtain ⟨n, hquote, hend, hlength⟩ := tag_quotes htag after
  rw [matchTags, if_neg hne]
  rw [hlist]
  dsimp only
  rw [if_neg (by simp [hquote]), hend]
  dsimp only
  rw [hlength, List.take_left, List.drop_left, htag]
  simp only [Bool.not_true, Bool.false_eq_true, if_false]
  split
  · rename_i hafter
    rw [hafter]
  · rename_i hafter
    rw [hafter]

lemma not_validEntityTag_nil : ¬validEntityTag [] = true := by decide

lemma TagList.eq_nil {tags : List Bytes} (h : TagList [] tags) : tags = [] := by
  have hnil : ∀ tag after : Bytes, validEntityTag tag = true → trim [] = tag ++ after → False := by
    intro tag after htag hlist
    obtain ⟨rfl, -⟩ := List.append_eq_nil_iff.mp hlist.symm
    exact not_validEntityTag_nil htag
  cases h with
  | nil => rfl
  | last htag hlist _ => exact (hnil _ _ htag hlist).elim
  | cons htag hlist _ _ => exact (hnil _ _ htag hlist).elim

lemma matchTags_nil (actual : Bytes) (weak matched : Bool) :
    matchTags actual weak matched [] = true ↔
      ∃ tags, TagList [] tags ∧ (matched = true ∨ ∃ tag ∈ tags, sameTag weak tag actual = true) := by
  rw [matchTags, if_pos rfl]
  constructor
  · intro hmatched
    exact ⟨[], .nil, .inl hmatched⟩
  · rintro ⟨tags, htags, hmatch⟩
    obtain rfl := htags.eq_nil
    simpa using hmatch

lemma matchTags_front {actual list : Bytes} {weak matched : Bool} (hne : list ≠ [])
    (h : matchTags actual weak matched list = true) :
    ∃ tag after, validEntityTag tag = true ∧ trim list = tag ++ after := by
  rw [matchTags, if_neg hne] at h
  dsimp only at h
  by_cases hquote : (trim list)[if weakTag (trim list) then 2 else 0]? ≠ some 34
  · rw [if_pos hquote] at h
    cases h
  · rw [if_neg hquote] at h
    cases hend : ((trim list).drop ((if weakTag (trim list) then 2 else 0) + 1)).findIdx? (· = 34) with
    | none =>
      rw [hend] at h
      cases h
    | some n =>
      rw [hend] at h
      dsimp only at h
      by_cases htag : (!validEntityTag ((trim list).take ((if weakTag (trim list) then 2 else 0) + n + 2))) = true
      · rw [if_pos htag] at h
        cases h
      · exact ⟨_, _, by simpa using htag, (List.take_append_drop _ _).symm⟩

lemma matchTags_iff (actual : Bytes) (weak : Bool) (n : ℕ) : ∀ (list : Bytes) (matched : Bool), list.length ≤ n →
    (matchTags actual weak matched list = true ↔
      ∃ tags, TagList list tags ∧ (matched = true ∨ ∃ tag ∈ tags, sameTag weak tag actual = true)) := by
  induction n with
  | zero =>
    intro list matched hlength
    obtain rfl : list = [] := List.length_eq_zero_iff.mp (by omega)
    exact matchTags_nil actual weak matched
  | succ n ih =>
    intro list matched hlength
    by_cases hne : list = []
    · subst hne
      exact matchTags_nil actual weak matched
    · have hshorter : ∀ {tag after rest : Bytes}, trim list = tag ++ after → trim after = 44 :: rest → rest.length ≤ n := by
        intro tag after rest hlist hafter
        have hcut := trim_length_le list
        have hrest := trim_length_le after
        rw [hlist, List.length_append] at hcut
        rw [hafter, List.length_cons] at hrest
        omega
      constructor
      · intro h
        obtain ⟨tag, after, htag, hlist⟩ := matchTags_front hne h
        rw [matchTags_tag hne htag hlist] at h
        cases hafter : trim after with
        | nil =>
          rw [hafter] at h
          refine ⟨[tag], .last htag hlist hafter, ?_⟩
          simpa using h
        | cons b rest =>
          rw [hafter] at h
          dsimp only at h
          split_ifs at h with hcomma
          obtain rfl : b = 44 := by simpa using hcomma
          obtain ⟨tags, htags, hmatch⟩ := (ih rest _ (hshorter hlist hafter)).mp h
          refine ⟨tag :: tags, .cons htag hlist hafter htags, ?_⟩
          rw [Bool.or_eq_true, or_assoc] at hmatch
          simpa using hmatch
      · rintro ⟨tags, htags, hmatch⟩
        cases htags with
        | nil => exact absurd rfl hne
        | last htag hlist hafter =>
          rw [matchTags_tag hne htag hlist, hafter]
          simpa using hmatch
        | @cons list tag after rest tags htag hlist hafter htags =>
          rw [matchTags_tag hne htag hlist, hafter]
          dsimp only
          rw [if_neg (by decide)]
          apply (ih rest _ (hshorter hlist hafter)).mpr
          refine ⟨tags, htags, ?_⟩
          rw [Bool.or_eq_true, or_assoc]
          simpa using hmatch

lemma entityTagMatches_iff (list actual : Bytes) (weak : Bool) :
    entityTagMatches list actual weak = true ↔ trim list = [42] ∨
      ∃ tags, TagList (trim list) tags ∧ ∃ tag ∈ tags, sameTag weak tag actual = true := by
  unfold entityTagMatches
  by_cases hstar : trim list = [42]
  · simp [hstar]
  · rw [if_neg hstar, matchTags_iff actual weak _ _ _ le_rfl]
    simp [hstar]

end Tags

end ServerCore.Web
