import Mathlib.Data.List.DropRight
import ServerCore.Core.Status
import ServerCore.Core.Utf8
import ServerCore.Foundations.OrderedMap

/-! `ParseConfigText` and the grammar it accepts. -/

namespace ServerCore.Core

open Foundations

namespace Config

abbrev Values := List (Bytes × Bytes)

def utf8ByteOrderMark : Bytes := [0xEF, 0xBB, 0xBF]

def isHorizontalWhitespace (character : Byte) : Bool := character = 32 || character = 9

def trimHorizontalWhitespace (text : Bytes) : Bytes :=
  (text.dropWhile isHorizontalWhitespace).rdropWhile isHorizontalWhitespace

def isKeyCharacter (character : Byte) : Bool :=
  (65 ≤ character && character ≤ 90) || (97 ≤ character && character ≤ 122) || isDigit character ||
    character = 46 || character = 95 || character = 45

def isValidKey (key : Bytes) : Bool := !key.isEmpty && key.all isKeyCharacter

def hasUnsupportedLineEnding : Bytes → Bool
  | [] => false
  | b :: rest => (b = 13 && rest.head? ≠ some 10) || hasUnsupportedLineEnding rest

def invalidLine (line : ℕ) (reason : String) : Status :=
  .fail .invalidFormat ("config line " ++ toString line ++ ": " ++ reason)

def parseLine (values : Values) (lineNumber : ℕ) (line : Bytes) : Except Status Values :=
  let line := if line.getLast? = some 13 then line.dropLast else line
  let trimmedLine := trimHorizontalWhitespace line
  if trimmedLine ≠ [] ∧ trimmedLine.head? ≠ some 35 then
    match findFirst (· = 61) trimmedLine with
    | none => .error (invalidLine lineNumber "missing '=' separator")
    | some separator =>
      let key := trimHorizontalWhitespace (trimmedLine.take separator)
      if isValidKey key = false then .error (invalidLine lineNumber "key is not valid")
      else
        match OrderedMap.insert key (trimHorizontalWhitespace (trimmedLine.drop (separator + 1))) values with
        | none => .error (invalidLine lineNumber "key is declared more than once")
        | some values => .ok values
  else .ok values

def parseLines (values : Values) (lineNumber : ℕ) (text : Bytes) : Except Status Values :=
  match _h : text, findFirst (· = 10) text with
  | [], _ => .ok values
  | _ :: _, none => parseLine values lineNumber text
  | _ :: _, some newline =>
    (parseLine values lineNumber (text.take newline)).bind fun values =>
      parseLines values (lineNumber + 1) (text.drop (newline + 1))
termination_by text.length
decreasing_by
  rw [List.length_drop, _h, List.length_cons]
  omega

def parseConfigText (text : Bytes) : Except Status Values :=
  if text.contains 0 then .error (.fail .invalidFormat "config text contains a NUL byte")
  else if isValidUtf8 text = false then .error (.fail .invalidFormat "config text is not valid UTF-8")
  else if hasUnsupportedLineEnding text then
    .error (.fail .invalidFormat "config text uses an unsupported line ending")
  else if startsWith text utf8ByteOrderMark then parseLines [] 1 (text.drop utf8ByteOrderMark.length)
  else parseLines [] 1 text

section Grammar

inductive IsLine (line : Bytes) : Option (Bytes × Bytes) → Prop
  | empty : trimHorizontalWhitespace line = [] → IsLine line none
  | comment {rest : Bytes} : trimHorizontalWhitespace line = 35 :: rest → IsLine line none
  | entry {left right : Bytes} : trimHorizontalWhitespace line = left ++ 61 :: right → 61 ∉ left →
      isValidKey (trimHorizontalWhitespace left) = true →
      IsLine line (some (trimHorizontalWhitespace left, trimHorizontalWhitespace right))

inductive IsBody : Bytes → List (Bytes × Bytes) → Prop
  | last {line : Bytes} {entry : Option (Bytes × Bytes)} : 10 ∉ line → 13 ∉ line → IsLine line entry →
      IsBody line entry.toList
  | terminated {line terminator rest : Bytes} {entry : Option (Bytes × Bytes)} {entries : List (Bytes × Bytes)} :
      10 ∉ line → 13 ∉ line → terminator = [10] ∨ terminator = [13, 10] → IsLine line entry → IsBody rest entries →
      IsBody (line ++ terminator ++ rest) (entry.toList ++ entries)

structure IsConfig (text : Bytes) (entries : List (Bytes × Bytes)) : Prop where
  noNul : 0 ∉ text
  utf8 : Utf8 text
  lineEnds : ∀ index : ℕ, text[index]? = some 13 → text[index + 1]? = some 10
  body : ∃ body, (text = body ∨ text = utf8ByteOrderMark ++ body) ∧ IsBody body entries
  distinct : (entries.map Prod.fst).Nodup

end Grammar

section Trim

lemma trim_head {text rest : Bytes} {b : Byte} (h : trimHorizontalWhitespace text = b :: rest) :
    isHorizontalWhitespace b = false := by
  have hprefix : b :: rest <+: text.dropWhile isHorizontalWhitespace := by
    rw [← h]
    exact List.rdropWhile_prefix _ _
  obtain ⟨tail, htail⟩ := hprefix
  have hhead := List.head?_dropWhile_not isHorizontalWhitespace text
  rw [← htail] at hhead
  simpa using hhead

lemma trim_cons {b : Byte} {rest : Bytes} (h : isHorizontalWhitespace b = false) :
    ∃ rest', trimHorizontalWhitespace (b :: rest) = b :: rest' := by
  rw [trimHorizontalWhitespace, List.dropWhile_cons_of_neg (by simp [h])]
  have hprefix := List.rdropWhile_prefix isHorizontalWhitespace (b :: rest)
  cases htrim : (b :: rest).rdropWhile isHorizontalWhitespace with
  | nil =>
    rw [List.rdropWhile_eq_nil_iff] at htrim
    have := htrim b (by simp)
    rw [h] at this
    cases this
  | cons c rest' =>
    rw [htrim] at hprefix
    obtain ⟨rfl, -⟩ := List.cons_prefix_cons.mp hprefix
    exact ⟨rest', rfl⟩

lemma trim_eq_self_iff {text : Bytes} : trimHorizontalWhitespace text = text ↔
    (∀ b, text.head? = some b → isHorizontalWhitespace b = false) ∧
      ∀ b, text.getLast? = some b → isHorizontalWhitespace b = false := by
  constructor
  · intro h
    constructor
    · intro b hb
      obtain ⟨rest, rfl⟩ := List.head?_eq_some_iff.mp hb
      exact trim_head h
    · intro b hb
      obtain ⟨front, rfl⟩ := List.getLast?_eq_some_iff.mp hb
      have hself : (front ++ [b]).dropWhile isHorizontalWhitespace = front ++ [b] := by
        have hlength := (List.rdropWhile_prefix isHorizontalWhitespace ((front ++ [b]).dropWhile isHorizontalWhitespace)).length_le
        rw [trimHorizontalWhitespace] at h
        rw [h] at hlength
        exact (List.dropWhile_suffix isHorizontalWhitespace).eq_of_length_le hlength
      rw [trimHorizontalWhitespace, hself, List.rdropWhile_eq_self_iff] at h
      simpa using h (by simp)
  · rintro ⟨hhead, hlast⟩
    have hself : text.dropWhile isHorizontalWhitespace = text := by
      cases text with
      | nil => rfl
      | cons b rest => exact List.dropWhile_cons_of_neg (by simp [hhead b rfl])
    rw [trimHorizontalWhitespace, hself, List.rdropWhile_eq_self_iff]
    intro hne
    simp [hlast _ (List.getLast?_eq_getLast_of_ne_nil hne)]

end Trim

section Lines

lemma isKeyCharacter_spec {b : Byte} (h : isKeyCharacter b = true) :
    b ≠ 0 ∧ b ≠ 10 ∧ b ≠ 13 ∧ b ≠ 35 ∧ b ≠ 61 ∧ b < 0x80 ∧ isHorizontalWhitespace b = false := by
  revert b
  apply byte_cases
  decide +kernel

lemma isValidKey_iff {key : Bytes} : isValidKey key = true ↔ key ≠ [] ∧ ∀ b ∈ key, isKeyCharacter b = true := by
  simp [isValidKey]

lemma trimmed_key {key : Bytes} (h : isValidKey key = true) : trimHorizontalWhitespace key = key := by
  obtain ⟨-, hall⟩ := isValidKey_iff.mp h
  rw [trim_eq_self_iff]
  refine ⟨fun b hb => ?_, fun b hb => ?_⟩
  · exact (isKeyCharacter_spec (hall b (List.mem_of_mem_head? hb))).2.2.2.2.2.2
  · exact (isKeyCharacter_spec (hall b (List.mem_of_getLast? hb))).2.2.2.2.2.2

lemma IsLine.head {line : Bytes} {entry : Bytes × Bytes} (h : IsLine line (some entry)) :
    ∃ b rest, trimHorizontalWhitespace line = b :: rest ∧ isKeyCharacter b = true := by
  cases h with
  | @entry left right htrim _ hkey =>
    obtain ⟨hne, hall⟩ := isValidKey_iff.mp hkey
    cases left with
    | nil => exact absurd rfl hne
    | cons b left =>
      obtain ⟨left', hleft⟩ := @trim_cons b left (trim_head htrim)
      rw [hleft] at hall
      exact ⟨b, left ++ 61 :: right, htrim, hall b List.mem_cons_self⟩

variable {values values' : Values} {lineNumber : ℕ} {line : Bytes}

lemma parseLine_ok_iff (hline : 13 ∉ line) : parseLine values lineNumber line = .ok values' ↔
    ∃ entry, IsLine line entry ∧ OrderedMap.insertAll values entry.toList = some values' := by
  have hlast : line.getLast? ≠ some 13 := fun h => hline (List.mem_of_getLast? h)
  rw [parseLine, if_neg hlast]
  dsimp only
  by_cases hskip : trimHorizontalWhitespace line ≠ [] ∧ (trimHorizontalWhitespace line).head? ≠ some 35
  · rw [if_pos hskip]
    have hnone (h : IsLine line none) : False := by
      cases h with
      | empty h => exact hskip.1 h
      | comment h => exact hskip.2 (by rw [h]; rfl)
    cases hfind : findFirst (· = 61) (trimHorizontalWhitespace line) with
    | none =>
      constructor
      · intro h
        cases h
      · rintro ⟨entry, hentry, -⟩
        cases hentry with
        | empty h => exact (hnone (.empty h)).elim
        | comment h => exact (hnone (.comment h)).elim
        | entry htrim hleft hkey =>
          rw [htrim] at hfind
          exact absurd (findIdx?_none hfind) (by simp)
    | some separator =>
      obtain ⟨hsplit, hleft⟩ := findIdx?_split hfind
      dsimp only
      by_cases hkey : isValidKey (trimHorizontalWhitespace ((trimHorizontalWhitespace line).take separator)) = true
      · rw [if_neg (by rw [hkey]; decide)]
        have hentry := IsLine.entry hsplit hleft hkey
        constructor
        · intro h
          refine ⟨_, hentry, ?_⟩
          rw [Option.toList_some, OrderedMap.insertAll]
          split at h
          · cases h
          · rename_i inserted hinsert
            rw [hinsert]
            cases h
            rfl
        · rintro ⟨entry, hline', hinsert⟩
          cases hline' with
          | empty h => exact (hnone (.empty h)).elim
          | comment h => exact (hnone (.comment h)).elim
          | @entry left right htrim hleft' hkey' =>
            rw [htrim, findFirst, findIdx?_mid hleft'] at hfind
            cases hfind
            rw [htrim, List.take_left, show (left ++ 61 :: right).drop (left.length + 1) = right by
              rw [← List.drop_drop, List.drop_left, List.drop_one, List.tail_cons]]
            rw [Option.toList_some, OrderedMap.insertAll] at hinsert
            obtain ⟨inserted, hinserted, hrest⟩ := Option.bind_eq_some_iff.mp hinsert
            cases hrest
            rw [hinserted]
      · rw [if_pos (by simpa using hkey)]
        constructor
        · intro h
          cases h
        · rintro ⟨entry, hentry, -⟩
          cases hentry with
          | empty h => exact (hnone (.empty h)).elim
          | comment h => exact (hnone (.comment h)).elim
          | @entry left right htrim hleft' hkey' =>
            rw [htrim, findFirst, findIdx?_mid hleft'] at hfind
            cases hfind
            rw [htrim, List.take_left] at hkey
            exact absurd hkey' hkey
  · rw [if_neg hskip]
    have hnone : IsLine line none := by
      by_cases hempty : trimHorizontalWhitespace line = []
      · exact .empty hempty
      · obtain ⟨rest, hrest⟩ := List.head?_eq_some_iff.mp (not_not.mp fun h => hskip ⟨hempty, h⟩)
        exact .comment hrest
    constructor
    · intro h
      cases h
      exact ⟨none, hnone, rfl⟩
    · rintro ⟨entry, hentry, hinsert⟩
      cases entry with
      | none =>
        cases hinsert
        rfl
      | some entry =>
        obtain ⟨b, rest, htrim, hb⟩ := hentry.head
        refine absurd ⟨?_, ?_⟩ hskip
        · rw [htrim]
          exact List.cons_ne_nil b rest
        · rw [htrim, List.head?_cons]
          rintro ⟨⟩
          exact (isKeyCharacter_spec hb).2.2.2.1 rfl

lemma parseLine_carriageReturn (hline : 13 ∉ line) :
    parseLine values lineNumber (line ++ [13]) = parseLine values lineNumber line := by
  have hlast : line.getLast? ≠ some 13 := fun h => hline (List.mem_of_getLast? h)
  have hfeed : (line ++ [13]).getLast? = some 13 := by simp
  simp only [parseLine, hfeed, hlast, ↓reduceIte, List.dropLast_concat]

lemma hasUnsupportedLineEnding_eq_false {text : Bytes} : hasUnsupportedLineEnding text = false ↔
    ∀ index : ℕ, text[index]? = some 13 → text[index + 1]? = some 10 := by
  induction text with
  | nil => simp [hasUnsupportedLineEnding]
  | cons b rest ih =>
    rw [hasUnsupportedLineEnding, Bool.or_eq_false_iff, ih]
    constructor
    · rintro ⟨hb, hrest⟩ index hindex
      cases index with
      | zero =>
        obtain rfl : b = 13 := by simpa using hindex
        simpa [List.head?_eq_getElem?] using hb
      | succ index => exact hrest index hindex
    · intro h
      refine ⟨?_, fun index hindex => h (index + 1) hindex⟩
      have hzero := h 0
      by_cases hb : b = 13
      · subst hb
        simpa [List.head?_eq_getElem?] using hzero rfl
      · simp [hb]

lemma hasUnsupportedLineEnding_terminated {terminator rest : Bytes} (hline : 13 ∉ line)
    (hterminator : terminator = [10] ∨ terminator = [13, 10]) :
    hasUnsupportedLineEnding (line ++ terminator ++ rest) = hasUnsupportedLineEnding rest := by
  induction line with
  | nil => rcases hterminator with rfl | rfl <;> simp [hasUnsupportedLineEnding]
  | cons b line ih =>
    rw [List.mem_cons, not_or] at hline
    rw [List.cons_append, List.cons_append, hasUnsupportedLineEnding, ih hline.2]
    simp [Ne.symm hline.1]

lemma exists_terminated {front rest : Bytes} (hfront : 10 ∉ front)
    (h : hasUnsupportedLineEnding (front ++ 10 :: rest) = false) : ∃ line terminator : Bytes, 13 ∉ line ∧ 10 ∉ line ∧
      ((terminator = [10] ∧ front = line) ∨ (terminator = [13, 10] ∧ front = line ++ [13])) ∧
      hasUnsupportedLineEnding rest = false := by
  induction front with
  | nil => exact ⟨[], [10], by simp, by simp, .inl ⟨rfl, rfl⟩, by simpa [hasUnsupportedLineEnding] using h⟩
  | cons b front ih =>
    rw [List.mem_cons, not_or] at hfront
    rw [List.cons_append, hasUnsupportedLineEnding, Bool.or_eq_false_iff] at h
    obtain ⟨hb, hrest⟩ := h
    obtain ⟨line, terminator, hline, hfeed, hcases, hrest⟩ := ih hfront.2 hrest
    by_cases h13 : b = 13
    · subst h13
      have hhead : (front ++ 10 :: rest).head? = some 10 := by simpa using hb
      cases front with
      | nil => exact ⟨[], [13, 10], by simp, by simp, .inr ⟨rfl, rfl⟩, hrest⟩
      | cons c front =>
        obtain rfl : c = 10 := by simpa using hhead
        exact absurd List.mem_cons_self hfront.2
    · refine ⟨b :: line, terminator, by simp [Ne.symm h13, hline], by simp [hfront.1, hfeed], ?_, hrest⟩
      rcases hcases with ⟨rfl, rfl⟩ | ⟨rfl, rfl⟩
      · exact .inl ⟨rfl, rfl⟩
      · exact .inr ⟨rfl, rfl⟩

lemma insertAll_append (entries entries' : List (Bytes × Bytes)) : OrderedMap.insertAll values (entries ++ entries') =
    (OrderedMap.insertAll values entries).bind fun values => OrderedMap.insertAll values entries' := by
  induction entries generalizing values with
  | nil => rfl
  | cons entry entries ih =>
    rw [List.cons_append, OrderedMap.insertAll, OrderedMap.insertAll, Option.bind_assoc]
    congr 1
    funext values
    exact ih

lemma not_mem_of_supported {text : Bytes} (hfeed : 10 ∉ text) (h : hasUnsupportedLineEnding text = false) : 13 ∉ text := by
  intro hmem
  obtain ⟨index, hindex⟩ := List.mem_iff_getElem?.mp hmem
  exact hfeed (List.mem_of_getElem? (hasUnsupportedLineEnding_eq_false.mp h index hindex))

lemma IsBody.split {text terminator rest : Bytes} {entries : List (Bytes × Bytes)} (h : IsBody text entries)
    (htext : text = line ++ terminator ++ rest) (hfeed : 10 ∉ line) (hreturn : 13 ∉ line)
    (hterminator : terminator = [10] ∨ terminator = [13, 10]) :
    ∃ entry others, IsLine line entry ∧ IsBody rest others ∧ entries = entry.toList ++ others := by
  have hfront {line terminator rest : Bytes} (hterminator : terminator = [10] ∨ terminator = [13, 10]) :
      ∃ tail, line ++ terminator ++ rest = line ++ tail ++ 10 :: rest ∧ (tail = [] ∨ tail = [13]) := by
    rcases hterminator with rfl | rfl
    · exact ⟨[], by simp, .inl rfl⟩
    · exact ⟨[13], by simp, .inr rfl⟩
  have hcut {x y : Bytes} {u v : Bytes} (hx : 13 ∉ x) (hy : 13 ∉ y) (hu : u = [] ∨ u = [13]) (hv : v = [] ∨ v = [13])
      (heq : x ++ u = y ++ v) : x = y := by
    rcases hu with rfl | rfl <;> rcases hv with rfl | rfl
    · simpa using heq
    · rw [List.append_nil] at heq
      exact absurd (by rw [heq]; simp) hx
    · rw [List.append_nil] at heq
      exact absurd (by rw [← heq]; simp) hy
    · exact (List.append_inj' heq rfl).1
  obtain ⟨tail, htail, hkind⟩ := @hfront line terminator rest hterminator
  cases h with
  | last hnone _ _ =>
    exfalso
    apply hnone
    rw [htext, htail]
    simp
  | @terminated line' terminator' rest' entry others hfeed' hreturn' hterminator' hentry hbody =>
    obtain ⟨tail', htail', hkind'⟩ := @hfront line' terminator' rest' hterminator'
    have hno (x : Bytes) (hx : x = [] ∨ x = [13]) : 10 ∉ x := by
      rcases hx with rfl | rfl <;> decide
    rw [htail', htail] at htext
    have hindex := @findIdx?_mid (line' ++ tail') 10 (by simp [hfeed', hno tail' hkind']) rest'
    rw [htext, findIdx?_mid (by simp [hfeed, hno tail hkind]), Option.some.injEq] at hindex
    obtain ⟨hlines, hrests⟩ := List.append_inj htext hindex.symm
    obtain rfl := hcut hreturn' hreturn hkind' hkind hlines
    obtain rfl := (List.cons.inj hrests).2
    exact ⟨entry, others, hentry, hbody, rfl⟩

lemma parseLines_ok_iff {text : Bytes} (h : hasUnsupportedLineEnding text = false) :
    parseLines values lineNumber text = .ok values' ↔
      ∃ entries, IsBody text entries ∧ OrderedMap.insertAll values entries = some values' := by
  induction hn : text.length using Nat.strong_induction_on generalizing text values lineNumber with
  | _ n ih =>
    cases hfind : findFirst (· = 10) text with
    | none =>
      have hfeed := findIdx?_none hfind
      have hreturn := not_mem_of_supported hfeed h
      have hlines : parseLines values lineNumber text = parseLine values lineNumber text := by
        rw [parseLines.eq_def, hfind]
        cases text with
        | nil => rfl
        | cons b text => rfl
      rw [hlines, parseLine_ok_iff hreturn]
      constructor
      · rintro ⟨entry, hentry, hinsert⟩
        exact ⟨entry.toList, .last hfeed hreturn hentry, hinsert⟩
      · rintro ⟨entries, hbody, hinsert⟩
        cases hbody with
        | last _ _ hentry => exact ⟨_, hentry, hinsert⟩
        | terminated _ _ hterminator _ _ =>
          exfalso
          apply hfeed
          rcases hterminator with rfl | rfl <;> simp
    | some newline =>
      obtain ⟨hsplit, hfeed⟩ := findIdx?_split hfind
      have hlines : parseLines values lineNumber text = (parseLine values lineNumber (text.take newline)).bind fun values =>
          parseLines values (lineNumber + 1) (text.drop (newline + 1)) := by
        rw [parseLines.eq_def, hfind]
        cases text with
        | nil => simp at hsplit
        | cons b text => rfl
      have hshort : (text.drop (newline + 1)).length < n := by
        have := congrArg List.length hsplit
        simp only [List.length_append, List.length_cons] at this
        omega
      rw [hsplit] at h
      obtain ⟨line, terminator, hreturn, hfeed', hcases, hrest⟩ := exists_terminated hfeed h
      have hline : parseLine values lineNumber (text.take newline) = parseLine values lineNumber line := by
        rcases hcases with ⟨-, hfront⟩ | ⟨-, hfront⟩
        · rw [hfront]
        · rw [hfront, parseLine_carriageReturn hreturn]
      have htext : text = line ++ terminator ++ text.drop (newline + 1) := by
        refine hsplit.trans ?_
        rcases hcases with ⟨rfl, hfront⟩ | ⟨rfl, hfront⟩
        · rw [hfront, List.append_assoc]
          rfl
        · rw [hfront, List.append_assoc, List.append_assoc]
          rfl
      have hterminator : terminator = [10] ∨ terminator = [13, 10] := hcases.imp And.left And.left
      rw [hlines, hline]
      constructor
      · intro hok
        cases hparse : parseLine values lineNumber line with
        | error status =>
          rw [hparse] at hok
          cases hok
        | ok values₁ =>
          rw [hparse] at hok
          obtain ⟨entry, hentry, hinsert⟩ := (parseLine_ok_iff hreturn).mp hparse
          obtain ⟨entries, hbody, hinserts⟩ := (ih _ hshort hrest rfl).mp hok
          refine ⟨entry.toList ++ entries, ?_, ?_⟩
          · rw [htext]
            exact .terminated hfeed' hreturn hterminator hentry hbody
          · rw [insertAll_append, hinsert, Option.bind_some, hinserts]
      · rintro ⟨entries, hbody, hinserts⟩
        obtain ⟨entry, rest, hentry, hrest', rfl⟩ := IsBody.split hbody htext hfeed' hreturn hterminator
        rw [insertAll_append] at hinserts
        obtain ⟨values₁, hinsert, hinserts⟩ := Option.bind_eq_some_iff.mp hinserts
        rw [(parseLine_ok_iff hreturn).mpr ⟨entry, hentry, hinsert⟩]
        exact (ih _ hshort hrest rfl).mpr ⟨rest, hrest', hinserts⟩

end Lines

section Text

variable {text : Bytes} {values : Values} {entries : List (Bytes × Bytes)}

lemma IsLine.not_marked {line : Bytes} {entry : Option (Bytes × Bytes)} (h : IsLine (0xEF :: line) entry) : False := by
  obtain ⟨rest, hrest⟩ := @trim_cons 0xEF line (by decide)
  cases entry with
  | none =>
    cases h with
    | empty h =>
      rw [hrest] at h
      cases h
    | comment h =>
      rw [hrest] at h
      cases h
  | some entry =>
    obtain ⟨b, rest', htrim, hb⟩ := h.head
    rw [hrest] at htrim
    obtain ⟨rfl, -⟩ := List.cons.inj htrim
    revert hb
    decide

lemma IsBody.not_marked {rest : Bytes} (h : IsBody (utf8ByteOrderMark ++ rest) entries) : False := by
  generalize htext : utf8ByteOrderMark ++ rest = text at h
  cases h with
  | last _ _ hline =>
    rw [← htext] at hline
    exact hline.not_marked
  | @terminated line terminator rest' entry others _ _ hterminator hline _ =>
    cases line with
    | nil => rcases hterminator with rfl | rfl <;> simp [utf8ByteOrderMark] at htext
    | cons b line =>
      obtain rfl : 0xEF = b := (List.cons.inj htext).1
      exact hline.not_marked

lemma insertAll_nil_iff : OrderedMap.insertAll [] entries = some values ↔
    (entries.map Prod.fst).Nodup ∧ values.Perm entries ∧ OrderedMap.Sorted values := by
  have hnil : OrderedMap.Sorted ([] : Values) := List.Pairwise.nil
  constructor
  · intro h
    have hsome := (OrderedMap.insertAll_isSome_iff hnil).mp (by rw [h]; rfl)
    have hperm := OrderedMap.insertAll_perm h
    rw [List.append_nil] at hperm
    exact ⟨hsome.1, hperm, OrderedMap.insertAll_keeps_sorted hnil h⟩
  · rintro ⟨hnodup, hperm, hsorted⟩
    have hsome := (OrderedMap.insertAll_isSome_iff hnil).mpr ⟨hnodup, by simp⟩
    obtain ⟨others, hothers⟩ := Option.isSome_iff_exists.mp hsome
    have hperm' := OrderedMap.insertAll_perm hothers
    rw [List.append_nil] at hperm'
    have hsorted' := OrderedMap.insertAll_keeps_sorted hnil hothers
    rw [hothers, Option.some.injEq]
    apply (hperm'.trans hperm.symm).eq_of_pairwise _ hsorted' hsorted
    intro a b _ _ hab hba
    exact absurd (Trans.trans hab hba) (Std.Irrefl.irrefl a.1)

lemma parseConfigText_ok_iff : parseConfigText text = .ok values ↔
    ∃ entries, IsConfig text entries ∧ OrderedMap.insertAll [] entries = some values := by
  by_cases hnul : 0 ∈ text
  · rw [parseConfigText, if_pos (by simpa using hnul)]
    refine ⟨by rintro ⟨⟩, ?_⟩
    rintro ⟨entries, hconfig, -⟩
    exact absurd hnul hconfig.noNul
  by_cases hutf8 : isValidUtf8 text = true
  swap
  · rw [parseConfigText, if_neg (by simpa using hnul), if_pos (by simpa using hutf8)]
    refine ⟨by rintro ⟨⟩, ?_⟩
    rintro ⟨entries, hconfig, -⟩
    exact absurd ((isValidUtf8_iff text).mpr hconfig.utf8) hutf8
  by_cases hends : hasUnsupportedLineEnding text = false
  swap
  · rw [parseConfigText, if_neg (by simpa using hnul), if_neg (by simp [hutf8]), if_pos (by simpa using hends)]
    refine ⟨by rintro ⟨⟩, ?_⟩
    rintro ⟨entries, hconfig, -⟩
    exact absurd (hasUnsupportedLineEnding_eq_false.mpr hconfig.lineEnds) hends
  have hconfig {entries : List (Bytes × Bytes)} {values : Values} {body : Bytes}
      (htext : text = body ∨ text = utf8ByteOrderMark ++ body) (hbody : IsBody body entries)
      (hinsert : OrderedMap.insertAll [] entries = some values) : IsConfig text entries :=
    ⟨hnul, (isValidUtf8_iff text).mp hutf8, hasUnsupportedLineEnding_eq_false.mp hends, ⟨body, htext, hbody⟩,
      (insertAll_nil_iff.mp hinsert).1⟩
  rw [parseConfigText, if_neg (by simpa using hnul), if_neg (by simp [hutf8]), if_neg (by simp [hends])]
  by_cases hmark : startsWith text utf8ByteOrderMark = true
  · obtain ⟨body, rfl⟩ := List.isPrefixOf_iff_prefix.mp hmark
    have hends' : hasUnsupportedLineEnding body = false := by
      simpa [utf8ByteOrderMark, hasUnsupportedLineEnding] using hends
    rw [if_pos hmark, List.drop_left, parseLines_ok_iff hends']
    constructor
    · rintro ⟨entries, hbody, hinsert⟩
      exact ⟨entries, hconfig (.inr rfl) hbody hinsert, hinsert⟩
    · rintro ⟨entries, hconfig, hinsert⟩
      obtain ⟨body', hcases, hbody⟩ := hconfig.body
      rcases hcases with rfl | heq
      · exact hbody.not_marked.elim
      · obtain rfl := List.append_cancel_left heq
        exact ⟨entries, hbody, hinsert⟩
  · rw [if_neg hmark, parseLines_ok_iff hends]
    constructor
    · rintro ⟨entries, hbody, hinsert⟩
      exact ⟨entries, hconfig (.inl rfl) hbody hinsert, hinsert⟩
    · rintro ⟨entries, hconfig, hinsert⟩
      obtain ⟨body', hcases, hbody⟩ := hconfig.body
      rcases hcases with rfl | rfl
      · exact ⟨entries, hbody, hinsert⟩
      · exact absurd (List.isPrefixOf_iff_prefix.mpr (List.prefix_append _ _)) hmark

end Text

section Printing

structure Printable (entry : Bytes × Bytes) : Prop where
  key : isValidKey entry.1 = true
  trimmed : trimHorizontalWhitespace entry.2 = entry.2
  noNul : 0 ∉ entry.2
  noLineFeed : 10 ∉ entry.2
  noCarriageReturn : 13 ∉ entry.2
  utf8 : Utf8 entry.2

def terminator (carriageReturn : Bool) : Bytes := if carriageReturn then [13, 10] else [10]

/-- Entries as `key=value` lines, each with the line end that goes with it. -/
def printed (lines : List ((Bytes × Bytes) × Bool)) : Bytes :=
  lines.flatMap fun line => line.1.1 ++ 61 :: line.1.2 ++ terminator line.2

lemma terminator_cases (carriageReturn : Bool) :
    terminator carriageReturn = [10] ∨ terminator carriageReturn = [13, 10] := by
  cases carriageReturn
  · exact .inl rfl
  · exact .inr rfl

lemma Printable.not_mem {entry : Bytes × Bytes} (h : Printable entry) :
    0 ∉ entry.1 ++ 61 :: entry.2 ∧ 10 ∉ entry.1 ++ 61 :: entry.2 ∧ 13 ∉ entry.1 ++ 61 :: entry.2 := by
  obtain ⟨-, hall⟩ := isValidKey_iff.mp h.key
  have hkey (b : Byte) (hb : isKeyCharacter b = false) : b ∉ entry.1 := by
    intro hmem
    rw [hall b hmem] at hb
    cases hb
  have hzero := hkey 0 (by decide)
  have hfeed := hkey 10 (by decide)
  have hreturn := hkey 13 (by decide)
  have := h.noNul
  have := h.noLineFeed
  have := h.noCarriageReturn
  simp_all

lemma Printable.isLine {entry : Bytes × Bytes} (h : Printable entry) : IsLine (entry.1 ++ 61 :: entry.2) (some entry) := by
  obtain ⟨hne, hall⟩ := isValidKey_iff.mp h.key
  have hself : trimHorizontalWhitespace (entry.1 ++ 61 :: entry.2) = entry.1 ++ 61 :: entry.2 := by
    rw [trim_eq_self_iff]
    constructor
    · intro b hb
      rw [List.head?_append_of_ne_nil _ hne] at hb
      exact (isKeyCharacter_spec (hall b (List.mem_of_mem_head? hb))).2.2.2.2.2.2
    · intro b hb
      rw [List.getLast?_append_of_ne_nil _ (List.cons_ne_nil _ _)] at hb
      cases hvalue : entry.2 with
      | nil =>
        rw [hvalue] at hb
        obtain rfl : 61 = b := Option.some.inj hb
        decide
      | cons c value =>
        rw [List.getLast?_cons_of_ne_nil (by rw [hvalue]; exact List.cons_ne_nil c value)] at hb
        exact (trim_eq_self_iff.mp h.trimmed).2 b hb
  have hno : 61 ∉ entry.1 := fun hmem => (isKeyCharacter_spec (hall 61 hmem)).2.2.2.2.1 rfl
  have hline := IsLine.entry hself hno (by rw [trimmed_key h.key]; exact h.key)
  rwa [trimmed_key h.key, h.trimmed] at hline

variable {lines : List ((Bytes × Bytes) × Bool)}

lemma printed_isBody (h : ∀ line ∈ lines, Printable line.1) : IsBody (printed lines) (lines.map Prod.fst) := by
  induction lines with
  | nil => exact @IsBody.last [] none List.not_mem_nil List.not_mem_nil (.empty rfl)
  | cons line lines ih =>
    rw [List.forall_mem_cons] at h
    obtain ⟨-, hfeed, hreturn⟩ := h.1.not_mem
    exact .terminated hfeed hreturn (terminator_cases line.2) h.1.isLine (ih h.2)

lemma printed_isConfig (h : ∀ line ∈ lines, Printable line.1) (hnodup : ((lines.map Prod.fst).map Prod.fst).Nodup) :
    IsConfig (printed lines) (lines.map Prod.fst) := by
  refine ⟨?_, ?_, ?_, ⟨_, .inl rfl, printed_isBody h⟩, hnodup⟩
  · intro hmem
    obtain ⟨line, hline, hzero⟩ := List.mem_flatMap.mp hmem
    rcases List.mem_append.mp hzero with hzero | hzero
    · exact (h line hline).not_mem.1 hzero
    · rcases terminator_cases line.2 with heq | heq <;> simp [heq] at hzero
  · clear hnodup
    induction lines with
    | nil => exact ⟨[], rfl⟩
    | cons line lines ih =>
      rw [List.forall_mem_cons] at h
      obtain ⟨-, hall⟩ := isValidKey_iff.mp h.1.key
      have hkey : Utf8 line.1.1 := .ofAscii fun b hb => (isKeyCharacter_spec (hall b hb)).2.2.2.2.2.1
      have hend : Utf8 (terminator line.2) := by
        rcases terminator_cases line.2 with heq | heq <;> rw [heq] <;> exact .ofAll rfl
      have hsign : Utf8 [61] := .ofAll rfl
      have hfront := (hkey.append (hsign.append h.1.utf8)).append hend
      exact hfront.append (ih h.2)
  · rw [← hasUnsupportedLineEnding_eq_false]
    clear hnodup
    induction lines with
    | nil => rfl
    | cons line lines ih =>
      rw [List.forall_mem_cons] at h
      rw [printed, List.flatMap_cons, hasUnsupportedLineEnding_terminated h.1.not_mem.2.2 (terminator_cases line.2)]
      exact ih h.2

end Printing

/-- The parser accepts the texts of the grammar and no others, and reads a printed map back. -/
theorem parseConfigText_exact :
    (∀ text, (∃ values, parseConfigText text = .ok values) ↔ ∃ entries, IsConfig text entries) ∧
    (∀ text values entries, parseConfigText text = .ok values → IsConfig text entries →
      values.Perm entries ∧ OrderedMap.Sorted values) ∧
    (∀ values lines, OrderedMap.Sorted values → (∀ entry ∈ values, Printable entry) →
      (lines.map Prod.fst).Perm values → parseConfigText (printed lines) = .ok values) := by
  have hexists {text : Bytes} {entries : List (Bytes × Bytes)} (h : IsConfig text entries) :
      ∃ values, OrderedMap.insertAll [] entries = some values := by
    apply Option.isSome_iff_exists.mp
    exact (OrderedMap.insertAll_isSome_iff List.Pairwise.nil).mpr ⟨h.distinct, by simp⟩
  refine ⟨fun text => ⟨?_, ?_⟩, ?_, ?_⟩
  · rintro ⟨values, hvalues⟩
    obtain ⟨entries, hconfig, -⟩ := parseConfigText_ok_iff.mp hvalues
    exact ⟨entries, hconfig⟩
  · rintro ⟨entries, hconfig⟩
    obtain ⟨values, hinsert⟩ := hexists hconfig
    exact ⟨values, parseConfigText_ok_iff.mpr ⟨entries, hconfig, hinsert⟩⟩
  · intro text values entries hparse hconfig
    obtain ⟨values', hinsert⟩ := hexists hconfig
    rw [parseConfigText_ok_iff.mpr ⟨entries, hconfig, hinsert⟩] at hparse
    cases hparse
    exact (insertAll_nil_iff.mp hinsert).2
  · intro values lines hsorted hprintable hperm
    have hnodup : ((lines.map Prod.fst).map Prod.fst).Nodup := (hperm.map Prod.fst).nodup_iff.mpr hsorted.nodup
    have hconfig := @printed_isConfig lines (fun line hline => hprintable _ (hperm.subset (List.mem_map_of_mem hline))) hnodup
    exact parseConfigText_ok_iff.mpr ⟨_, hconfig, insertAll_nil_iff.mpr ⟨hnodup, hperm.symm, hsorted⟩⟩

end Config

end ServerCore.Core
