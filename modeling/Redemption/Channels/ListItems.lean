import Mathlib.Data.List.DropRight
import Redemption.Channels.ChannelsAuthorizations

/-! The items of a list of names, and what is left of them once some names are erased. -/
namespace Redemption.Channels

open Redemption.Foundation Redemption.Utils

/-- A name that may stand between commas, behind blanks. -/
def Word (name : List Byte) : Prop := name.head?.all isBlank = false ∧ COMMA ∉ name

instance : DecidablePred Word := fun _ => inferInstanceAs (Decidable (_ ∧ _))

def Blank (text : List Byte) : Prop := ∀ char ∈ text, isBlank char = true

/-- The text of items of which some are gone, up to the blanks before them. -/
def without (gone items : List (List Byte)) : List Byte :=
  items.flatMap fun item =>
    item.takeWhile isBlank ++ if ltrim item ∈ gone then [] else ltrim item ++ [COMMA]

variable {name pattern item front back text : List Byte} {gone items : List (List Byte)}

theorem Word.some (word : Word name) : name ≠ [] := by
  rintro rfl
  cases word.1

theorem takeWhile_ltrim (item : List Byte) : item.takeWhile isBlank ++ ltrim item = item :=
  List.takeWhile_append_dropWhile

theorem blank_takeWhile (item : List Byte) : Blank (item.takeWhile isBlank) :=
  fun _ member => List.mem_takeWhile_imp member

theorem ltrim_free (free : COMMA ∉ item) : COMMA ∉ ltrim item :=
  fun member => free ((List.dropWhile_sublist _).subset member)

section Infix

theorem blank_apart (word : Word name) (begins : name <+: pattern) {char : Byte}
    (blank : isBlank char = true) : ¬ pattern <+: char :: text := by
  intro found
  obtain ⟨rest, same⟩ := begins.trans found
  cases name with
  | nil => exact word.some rfl
  | cons head name =>
    cases same
    have solid := word.1
    rw [List.head?_cons, Option.all_some, blank] at solid
    cases solid

theorem infix_blank (word : Word name) (begins : name <+: pattern) (blank : Blank front) :
    pattern <:+: front ++ text ↔ pattern <:+: text := by
  induction front with
  | nil => rfl
  | cons char front ih =>
    obtain ⟨first, others⟩ := List.forall_mem_cons.mp blank
    rw [List.cons_append, List.infix_cons_iff, ih others,
      or_iff_right (blank_apart word begins first)]

theorem prefix_comma (free : COMMA ∉ pattern) :
    pattern <+: item ++ COMMA :: text ↔ pattern <+: item := by
  induction pattern generalizing item with
  | nil => simp
  | cons char pattern ih =>
    obtain ⟨apart, free⟩ := not_or.mp (mt List.mem_cons.mpr free)
    cases item with
    | nil => simp [List.cons_prefix_cons, Ne.symm apart]
    | cons head item => rw [List.cons_append, List.cons_prefix_cons, List.cons_prefix_cons, ih free]

theorem prefix_name (free : COMMA ∉ name) (free' : COMMA ∉ item) :
    name ++ [COMMA] <+: item ++ COMMA :: text ↔ name = item := by
  constructor
  · intro found
    obtain ⟨rest, rfl⟩ := (prefix_comma free).mp ((List.prefix_append name [COMMA]).trans found)
    rw [List.append_assoc, List.prefix_append_right_inj] at found
    cases rest with
    | nil => exact (List.append_nil name).symm
    | cons head rest =>
      obtain ⟨rfl, _⟩ := List.cons_prefix_cons.mp found
      exact absurd (List.mem_append_right _ List.mem_cons_self) free'
  · rintro rfl
    exact ⟨text, List.append_assoc ..⟩

theorem comma_apart (word : Word name) : ¬ name ++ [COMMA] <+: COMMA :: text :=
  fun found => word.some ((@prefix_name name [] text word.2 List.not_mem_nil).mp found)

theorem infix_comma (word : Word pattern) :
    pattern <:+: item ++ COMMA :: text ↔ pattern <:+: item ∨ pattern <:+: text := by
  induction item with
  | nil =>
    have apart : ¬ pattern <+: COMMA :: text := fun found =>
      word.some (List.prefix_nil.mp ((@prefix_comma _ [] text word.2).mp found))
    rw [List.nil_append, List.infix_cons_iff, List.infix_nil, or_iff_right apart,
      or_iff_right word.some]
  | cons char item ih =>
    rw [List.cons_append, List.infix_cons_iff, List.infix_cons_iff, ← List.cons_append,
      prefix_comma word.2, ih, or_assoc]

theorem infix_name (word : Word name) (free : COMMA ∉ item) :
    name ++ [COMMA] <:+: item ++ COMMA :: text ↔ name <:+ item ∨ name ++ [COMMA] <:+: text := by
  induction item with
  | nil =>
    rw [List.nil_append, List.infix_cons_iff, List.suffix_nil, or_iff_right (comma_apart word),
      or_iff_right word.some]
  | cons char item ih =>
    rw [List.cons_append, List.infix_cons_iff, List.suffix_cons_iff, ← List.cons_append,
      prefix_name word.2 free, ih fun member => free (List.mem_cons_of_mem _ member), or_assoc]

theorem without_cons (gone : List (List Byte)) (item : List Byte) (items : List (List Byte)) :
    without gone (item :: items) = item.takeWhile isBlank ++
      if ltrim item ∈ gone then without gone items
      else ltrim item ++ COMMA :: without gone items := by
  simp only [without, List.flatMap_cons, List.append_assoc]
  split <;> simp

theorem infix_without (word : Word pattern) (gone items : List (List Byte)) :
    pattern <:+: without gone items ++ text ↔
      (∃ item ∈ items, ltrim item ∉ gone ∧ pattern <:+: ltrim item) ∨ pattern <:+: text := by
  induction items with
  | nil => simp [without]
  | cons item items ih =>
    rw [without_cons, List.append_assoc,
      infix_blank word (List.prefix_refl _) (blank_takeWhile item)]
    by_cases mine : ltrim item ∈ gone
    · rw [if_pos mine, ih]
      simp [mine]
    · rw [if_neg mine, List.append_assoc, List.cons_append, infix_comma word, ih]
      simp [mine, or_assoc]

theorem name_without (word : Word name) (free : ∀ item ∈ items, COMMA ∉ item) :
    name ++ [COMMA] <:+: without [] items ↔ ∃ item ∈ items, name <:+ ltrim item := by
  induction items with
  | nil => simp [without]
  | cons item items ih =>
    obtain ⟨free, others⟩ := List.forall_mem_cons.mp free
    rw [without_cons, infix_blank word (List.prefix_append _ _) (blank_takeWhile item),
      if_neg List.not_mem_nil, infix_name word (ltrim_free free), ih others]
    simp

end Infix

section Erase

theorem eraseFrom_skip (pattern front back : List Byte) :
    eraseFrom pattern front.length (front ++ back) = eraseFrom pattern 0 back := by
  induction front with
  | nil => rfl
  | cons char front ih => exact ih

theorem eraseFrom_sublist (pattern : List Byte) (skipped : Nat) (text : List Byte) :
    (eraseFrom pattern skipped text).Sublist text := by
  induction text generalizing skipped with
  | nil => rw [eraseFrom]
  | cons char text ih =>
    cases skipped with
    | succ skipped => exact (ih skipped).cons _
    | zero =>
      rw [eraseFrom]
      split
      · exact (ih _).cons _
      · exact (ih 0).cons_cons _

theorem eraseFrom_blank (word : Word name) (blank : Blank front) :
    eraseFrom (name ++ [COMMA]) 0 (front ++ text) =
      front ++ eraseFrom (name ++ [COMMA]) 0 text := by
  induction front with
  | nil => rfl
  | cons char front ih =>
    obtain ⟨first, others⟩ := List.forall_mem_cons.mp blank
    rw [List.cons_append, eraseFrom, if_neg (blank_apart word (List.prefix_append _ _) first),
      ih others, List.cons_append]

theorem eraseFrom_name (word : Word name) :
    eraseFrom (name ++ [COMMA]) 0 (name ++ COMMA :: text) = eraseFrom (name ++ [COMMA]) 0 text := by
  have found : name ++ [COMMA] <+: name ++ COMMA :: text := (prefix_name word.2 word.2).mpr rfl
  cases name with
  | nil => exact absurd rfl word.some
  | cons head name =>
    have skip := eraseFrom_skip (head :: name ++ [COMMA]) (name ++ [COMMA]) text
    rw [List.append_assoc] at skip
    exact (if_pos found).trans skip

theorem eraseFrom_other (word : Word name) (free : COMMA ∉ item) (other : ¬ name <:+ item) :
    eraseFrom (name ++ [COMMA]) 0 (item ++ COMMA :: text) =
      item ++ COMMA :: eraseFrom (name ++ [COMMA]) 0 text := by
  induction item with
  | nil => rw [List.nil_append, eraseFrom, if_neg (comma_apart word), List.nil_append]
  | cons char item ih =>
    rw [List.suffix_cons_iff, not_or] at other
    have apart := mt (@prefix_name name _ text word.2 free).mp other.1
    rw [List.cons_append] at apart ⊢
    rw [eraseFrom, if_neg apart, ih (fun member => free (List.mem_cons_of_mem _ member)) other.2,
      List.cons_append]

/-- Where the items that end in a name are that name, they are what is erased. -/
theorem erase_without (word : Word name) (free : ∀ item ∈ items, COMMA ∉ item)
    (plain : ∀ item ∈ items, name <:+ item → ltrim item = name) :
    eraseFrom (name ++ [COMMA]) 0 (without gone items) = without (name :: gone) items := by
  induction items with
  | nil => rfl
  | cons item items ih =>
    obtain ⟨free, others⟩ := List.forall_mem_cons.mp free
    obtain ⟨here, later⟩ := List.forall_mem_cons.mp plain
    rw [without_cons, without_cons, eraseFrom_blank word (blank_takeWhile item)]
    congr 1
    by_cases before : ltrim item ∈ gone
    · rw [if_pos before, if_pos (List.mem_cons_of_mem _ before), ih others later]
    · rw [if_neg before]
      by_cases mine : ltrim item = name
      · rw [mine, eraseFrom_name word, if_pos List.mem_cons_self, ih others later]
      · have other : ¬ name <:+ ltrim item := fun ends =>
          mine (here (ends.trans (List.dropWhile_suffix _)))
        rw [eraseFrom_other word (ltrim_free free) other, ih others later,
          if_neg (not_or.mpr ⟨mine, before⟩ ∘ List.mem_cons.mp)]

theorem erase_names {names : List (List Byte)} (words : ∀ name ∈ names, Word name)
    (free : ∀ item ∈ items, COMMA ∉ item)
    (plain : ∀ item ∈ items, ∀ name ∈ names, name <:+ item → ltrim item = name) :
    names.foldl (fun text name => (remove text (name ++ [COMMA])).2) (without gone items) =
      without (names.reverse ++ gone) items := by
  induction names generalizing gone with
  | nil => rfl
  | cons name names ih =>
    obtain ⟨word, words⟩ := List.forall_mem_cons.mp words
    rw [List.foldl_cons, remove, erase_without word free fun item member =>
      plain item member name List.mem_cons_self, ih words fun item member other among =>
      plain item member other (.tail _ among), List.reverse_cons, List.append_assoc]
    rfl

end Erase

section Items

theorem pieces_free (text : List Byte) : ∀ piece ∈ pieces COMMA text, COMMA ∉ piece := by
  induction text with
  | nil => simp [pieces]
  | cons char text ih =>
    rw [pieces]
    split
    · exact List.forall_mem_cons.mpr ⟨List.not_mem_nil, ih⟩
    · rename_i other
      split
      · simpa using Ne.symm other
      · rename_i same
        rw [same, List.forall_mem_cons] at ih
        exact List.forall_mem_cons.mpr
          ⟨mt List.mem_cons.mp (not_or.mpr ⟨Ne.symm other, ih.1⟩), ih.2⟩

theorem without_nil (items : List (List Byte)) :
    without [] items = items.flatMap (· ++ [COMMA]) := by
  refine List.flatMap_congr fun item _ => ?_
  rw [if_neg List.not_mem_nil, ← List.append_assoc, takeWhile_ltrim]

theorem without_pieces (text : List Byte) : without [] (pieces COMMA text) = text ++ [COMMA] := by
  rw [without_nil]
  induction text with
  | nil => rfl
  | cons char text ih =>
    rw [pieces, List.cons_append, ← ih]
    split
    · rename_i same
      rw [same]
      rfl
    · split
      · rename_i none
        exact absurd none (pieces_ne_nil COMMA text)
      · rename_i same
        rw [same]
        rfl

theorem pieces_alone (free : COMMA ∉ item) : pieces COMMA item = [item] := by
  induction item with
  | nil => rfl
  | cons char item ih =>
    obtain ⟨apart, free⟩ := not_or.mp (mt List.mem_cons.mpr free)
    rw [pieces, if_neg (Ne.symm apart), ih free]

theorem tokens_blank (blank : Blank front) : tokens (front ++ text) = tokens text := by
  induction front with
  | nil => rfl
  | cons char front ih =>
    obtain ⟨first, others⟩ := List.forall_mem_cons.mp blank
    have other : char ≠ COMMA := by
      rintro rfl
      cases first
    rw [← ih others, List.cons_append, tokens, tokens, pieces, if_neg other]
    split
    · rename_i none
      exact absurd none (pieces_ne_nil COMMA _)
    · rename_i same
      rw [same]
      simp [trim, ltrim, first]

theorem mem_tokens_without (free : ∀ item ∈ items, COMMA ∉ item) {name : List Byte} :
    name ∈ tokens (without gone items) ↔
      name ≠ [] ∧ ∃ item ∈ items, ltrim item ∉ gone ∧ trim item = name := by
  induction items with
  | nil => simp [without, tokens, pieces, trim, ltrim, rtrim]
  | cons item items ih =>
    obtain ⟨free, others⟩ := List.forall_mem_cons.mp free
    rw [without_cons, tokens_blank (blank_takeWhile item)]
    by_cases mine : ltrim item ∈ gone
    · rw [if_pos mine, ih others]
      simp [mine]
    · have again : trim (ltrim item) = trim item := congrArg rtrim (List.dropWhile_idempotent _ _)
      rw [if_neg mine, tokens_append, List.mem_append, ih others, tokens,
        pieces_alone (ltrim_free free)]
      simp only [List.map_singleton, again, List.mem_filter, decide_eq_true_eq, List.mem_cons,
        List.not_mem_nil, or_false, exists_eq_or_imp, mine, not_false_eq_true, true_and,
        ← and_or_left, eq_comm (a := name), and_comm (b := name ≠ [])]

theorem popComma_cases (text : List Byte) :
    popComma text = text ∨ popComma text ++ [COMMA] = text := by
  unfold popComma
  split
  · rename_i last
    exact .inr (List.dropLast_append_getLast? COMMA last)
  · exact .inl rfl

theorem tokens_popComma (text : List Byte) : tokens (popComma text) = tokens text := by
  obtain same | same := popComma_cases text
  · rw [same]
  · conv_rhs => rw [← same, tokens_append]
    exact (List.append_nil _).symm

theorem infix_popComma (word : Word pattern) :
    pattern <:+: popComma text ↔ pattern <:+: text := by
  obtain same | same := popComma_cases text
  · rw [same]
  · conv_rhs => rw [← same, infix_comma word, List.infix_nil, or_iff_left word.some]

/-- Where an item ends in one of the names that are erased, it is that name, behind blanks. -/
def Plain (list : List Byte) : Prop :=
  ∀ item ∈ pieces COMMA list, ∀ name ∈ ownNames, name <:+ item → ltrim item = name

instance : DecidablePred Plain := fun _ => inferInstanceAs (Decidable (∀ _ ∈ _, _))

/-- The names of a list that are left are those that are not erased. -/
theorem mem_tokens_residue {list name : List Byte} (plain : Plain list) :
    name ∈ tokens (residue list) ↔
      name ≠ [] ∧ ∃ item ∈ pieces COMMA list, ltrim item ∉ ownNames ∧ trim item = name := by
  have words : ∀ name ∈ ownNames, Word name := by decide
  have left := @erase_names [] _ _ words (pieces_free list) plain
  rw [without_pieces, List.append_nil] at left
  rw [residue, left, tokens_popComma, mem_tokens_without (pieces_free list)]
  simp only [List.mem_reverse]

theorem residue_read {list : List Byte} (free : 0 ∉ list) : ¬ Unread (residue list) := by
  have erased (names : List (List Byte)) (text : List Byte) :
      (names.foldl (fun text name => (remove text (name ++ [COMMA])).2) text).Sublist text := by
    induction names generalizing text with
    | nil => exact List.Sublist.refl text
    | cons name names ih => exact (ih _).trans (eraseFrom_sublist _ 0 text)
  have popped (text : List Byte) : (popComma text).Sublist text := by
    unfold popComma
    split
    · exact List.dropLast_sublist text
    · exact List.Sublist.refl text
  intro first
  have member := ((popped _).trans (erased ownNames _)).subset (List.mem_of_mem_head? first)
  obtain here | last := List.mem_append.mp member
  · exact free here
  · exact absurd last (by decide)

end Items

theorem mem_pieces_commas {commas : List Byte} (all : ∀ char ∈ commas, char = COMMA)
    (some : item ≠ []) : item ∈ pieces COMMA (text ++ commas) ↔ item ∈ pieces COMMA text := by
  induction commas generalizing text with
  | nil => rw [List.append_nil]
  | cons char commas ih =>
    obtain ⟨rfl, others⟩ := List.forall_mem_cons.mp all
    have split : text ++ COMMA :: commas = (text ++ [COMMA]) ++ commas := by simp
    rw [split, ih others, pieces_append, List.mem_append, or_iff_left]
    simpa [pieces] using some

/-- What is found in the expanded options is in an item, or is one of the rights to a drive. -/
theorem infix_expandOptions {proxyOpt : List Byte} (word : Word pattern)
    (drives : ∀ item ∈ pieces COMMA proxyOpt, chars "RDP_DRIVE" <:+ item →
      ltrim item = chars "RDP_DRIVE") :
    pattern <:+: expandOptions proxyOpt ↔
      (∃ item ∈ pieces COMMA proxyOpt, ltrim item ≠ chars "RDP_DRIVE" ∧ pattern <:+: ltrim item) ∨
        (∃ item ∈ pieces COMMA proxyOpt, ltrim item = chars "RDP_DRIVE") ∧
          pattern <:+: chars "RDP_DRIVE_READ,RDP_DRIVE_WRITE" := by
  have drive : Word (chars "RDP_DRIVE") := by decide
  obtain ⟨text, is⟩ : ∃ text, text = (proxyOpt.reverse.dropWhile (· = COMMA)).reverse := ⟨_, rfl⟩
  have member {item : List Byte} (some : item ≠ []) :
      item ∈ pieces COMMA proxyOpt ↔ item ∈ pieces COMMA text := by
    have whole : proxyOpt = text ++ (proxyOpt.reverse.takeWhile (· = COMMA)).reverse := by
      rw [is, ← List.reverse_append, List.takeWhile_append_dropWhile, List.reverse_reverse]
    rw [whole]
    refine mem_pieces_commas (fun char among => ?_) some
    have taken := List.mem_takeWhile_imp (List.mem_reverse.mp among)
    exact of_decide_eq_true taken
  have holds {word item : List Byte} (some : word ≠ []) (found : word <:+: ltrim item) :
      item ≠ [] := by
    rintro rfl
    exact some (List.infix_nil.mp found)
  have plain : ∀ item ∈ pieces COMMA text, chars "RDP_DRIVE" <:+ item →
      ltrim item = chars "RDP_DRIVE" := by
    intro item among ends
    refine drives item ((member ?_).mpr among) ends
    rintro rfl
    exact drive.some (List.suffix_nil.mp ends)
  have left := @erase_without _ [] _ drive (pieces_free text) plain
  have removed := name_without drive (pieces_free text)
  rw [without_pieces] at removed left
  have found : (chars "RDP_DRIVE," <:+: text ++ [COMMA]) ↔
      ∃ item ∈ pieces COMMA proxyOpt, ltrim item = chars "RDP_DRIVE" := by
    refine removed.trans (exists_congr fun item => ⟨?_, ?_⟩)
    · rintro ⟨among, ends⟩
      exact ⟨(member (holds drive.some ends.isInfix)).mpr among,
        plain item among (ends.trans (List.dropWhile_suffix _))⟩
    · rintro ⟨among, same⟩
      have ends : chars "RDP_DRIVE" <:+ ltrim item := same ▸ List.suffix_refl _
      exact ⟨(member (holds drive.some ends.isInfix)).mp among, ends⟩
  have items : (∃ item ∈ pieces COMMA text, ltrim item ∉ [chars "RDP_DRIVE"] ∧
      pattern <:+: ltrim item) ↔ ∃ item ∈ pieces COMMA proxyOpt,
        ltrim item ≠ chars "RDP_DRIVE" ∧ pattern <:+: ltrim item := by
    refine exists_congr fun item => ?_
    rw [List.mem_singleton]
    exact and_congr_left fun both => (member (holds word.some both.2)).symm
  have expanded : expandOptions proxyOpt = popComma (without [chars "RDP_DRIVE"] (pieces COMMA text) ++
      if ∃ item ∈ pieces COMMA proxyOpt, ltrim item = chars "RDP_DRIVE" then
        chars "RDP_DRIVE_READ,RDP_DRIVE_WRITE" else []) := by
    rw [← left, expandOptions, ← is]
    simp only [remove, found, decide_eq_true_eq]
    split
    · rfl
    · rw [List.append_nil]
      rfl
  rw [expanded, infix_popComma word, infix_without word, items]
  split
  · rename_i asked
    rw [and_iff_right asked]
  · rename_i unasked
    rw [List.infix_nil, or_iff_left word.some, or_iff_left fun both => unasked both.1]

end Redemption.Channels
