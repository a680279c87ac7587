import Mathlib.Data.List.Basic

/-! A list cut into pieces of one size, the last of which may be shorter. -/
namespace Redemption.Foundation

universe u

variable {β : Type u}

/-- `data` is cut into `chunks`: full ones, and one of at most `limit` at the end. -/
inductive Chunked (limit : Nat) : List β → List (List β) → Prop where
  | last {data : List β} (short : data.length ≤ limit) : Chunked limit data [data]
  | more {chunk data : List β} {chunks : List (List β)} (full : chunk.length = limit)
      (nonempty : data ≠ []) (rest : Chunked limit data chunks) :
      Chunked limit (chunk ++ data) (chunk :: chunks)

namespace Chunked

variable {limit : Nat} {data : List β} {chunks : List (List β)}

theorem flatten_eq (chunked : Chunked limit data chunks) : chunks.flatten = data := by
  induction chunked with
  | last => simp
  | more full nonempty rest ih => rw [List.flatten_cons, ih]

theorem length_le (chunked : Chunked limit data chunks) :
    ∀ chunk ∈ chunks, chunk.length ≤ limit := by
  induction chunked with
  | last short => simpa using short
  | more full nonempty rest ih =>
    intro chunk member
    rcases List.mem_cons.mp member with same | later
    · rw [same]
      exact Nat.le_of_eq full
    · exact ih chunk later

theorem ne_nil (chunked : Chunked limit data chunks) : chunks ≠ [] := by
  cases chunked <;> exact List.cons_ne_nil _ _

theorem count_le (positive : 0 < limit) (chunked : Chunked limit data chunks) :
    chunks.length ≤ data.length + 1 := by
  induction chunked with
  | last => simp
  | more full nonempty rest ih =>
    rw [List.length_cons, List.length_append]
    omega

theorem exists_chunks (positive : 0 < limit) (data : List β) :
    ∃ chunks, Chunked limit data chunks := by
  by_cases short : data.length ≤ limit
  · exact ⟨[data], .last short⟩
  · obtain ⟨chunks, rest⟩ := exists_chunks positive (data.drop limit)
    have full : (data.take limit).length = limit := by
      rw [List.length_take]
      omega
    have nonempty : data.drop limit ≠ [] := by
      rw [ne_eq, List.drop_eq_nil_iff]
      exact short
    have chunked := Chunked.more full nonempty rest
    rw [List.take_append_drop] at chunked
    exact ⟨_, chunked⟩
termination_by data.length
decreasing_by
  rw [List.length_drop]
  omega

end Chunked

end Redemption.Foundation

/-! Values that come in fragments: adjacent fragments of one value are put together. -/
namespace Redemption.Foundation

universe u

/-- When two values in a row are fragments of one, and of which. What follows them goes with the
second exactly when it goes with both. -/
structure Fragments (ε : Type u) where
  glue : ε → ε → Option ε
  follows : ∀ {first second whole : ε}, glue first second = some whole → ∀ third,
    (glue whole third).isSome = (glue second third).isSome
  assoc : ∀ {first second whole third both : ε}, glue first second = some whole →
    glue second third = some both → glue whole third = glue first both

namespace Fragments

variable {ε : Type u} (fragments : Fragments ε)

/-- A value is put in front of others. -/
def join (first : ε) : List ε → List ε
  | [] => [first]
  | second :: rest =>
    match fragments.glue first second with
    | some whole => whole :: rest
    | none => first :: second :: rest

/-- Fragments are put together. -/
def coalesce : List ε → List ε
  | [] => []
  | first :: rest => fragments.join first (coalesce rest)

variable {fragments}

@[simp] theorem coalesce_nil : fragments.coalesce [] = [] := rfl

@[simp] theorem coalesce_cons (first : ε) (rest : List ε) :
    fragments.coalesce (first :: rest) = fragments.join first (fragments.coalesce rest) := rfl

theorem join_join {first second whole : ε} (glued : fragments.glue first second = some whole)
    (values : List ε) :
    fragments.join first (fragments.join second values) = fragments.join whole values := by
  cases values with
  | nil => simp only [join, glued]
  | cons third rest =>
    have follows := fragments.follows glued third
    cases next : fragments.glue second third with
    | none =>
      rw [next, Option.isSome_none, Option.isSome_eq_false_iff, Option.isNone_iff_eq_none] at follows
      simp only [join, next, glued, follows]
    | some both =>
      have same := fragments.assoc glued next
      rw [next, Option.isSome_some, Option.isSome_iff_exists] at follows
      obtain ⟨all, is⟩ := follows
      simp only [join, next, is, ← same]

theorem coalesce_append_left (front back : List ε) :
    fragments.coalesce (fragments.coalesce front ++ back) = fragments.coalesce (front ++ back) := by
  induction front with
  | nil => rfl
  | cons first front ih =>
    rw [coalesce_cons, List.cons_append, coalesce_cons, ← ih]
    cases fragments.coalesce front with
    | nil => rfl
    | cons second rest =>
      cases glued : fragments.glue first second with
      | none => simp only [join, glued, List.cons_append, coalesce_cons]
      | some whole =>
        simp only [join, glued, List.cons_append, coalesce_cons]
        exact (join_join glued _).symm

@[simp] theorem coalesce_coalesce (values : List ε) :
    fragments.coalesce (fragments.coalesce values) = fragments.coalesce values := by
  have same := @coalesce_append_left _ fragments values []
  rwa [List.append_nil, List.append_nil] at same

theorem coalesce_append_right (front back : List ε) :
    fragments.coalesce (front ++ fragments.coalesce back) = fragments.coalesce (front ++ back) := by
  induction front with
  | nil => exact coalesce_coalesce back
  | cons first front ih => rw [List.cons_append, coalesce_cons, ih, List.cons_append, coalesce_cons]

theorem coalesce_append {front front' back back' : List ε}
    (fronts : fragments.coalesce front = fragments.coalesce front')
    (backs : fragments.coalesce back = fragments.coalesce back') :
    fragments.coalesce (front ++ back) = fragments.coalesce (front' ++ back') := by
  rw [← coalesce_append_left front back, fronts, coalesce_append_left, ← coalesce_append_right,
    backs, coalesce_append_right]

theorem coalesce_glued {first second whole : ε}
    (glued : fragments.glue first second = some whole) :
    fragments.coalesce [first, second] = fragments.coalesce [whole] := join_join glued []

/-- A value that is no fragment stays as it is. -/
theorem mem_coalesce {value : ε} (noFirst : ∀ other, fragments.glue value other = none)
    (noSecond : ∀ other, fragments.glue other value = none) {values : List ε}
    (mem : value ∈ values) : value ∈ fragments.coalesce values := by
  induction values with
  | nil => exact mem
  | cons first rest ih =>
    rw [coalesce_cons]
    cases together : fragments.coalesce rest with
    | nil =>
      rw [together] at ih
      obtain is | later := List.mem_cons.mp mem
      · exact List.mem_singleton.mpr is
      · exact absurd (ih later) List.not_mem_nil
    | cons second others =>
      rw [together] at ih
      cases glued : fragments.glue first second with
      | none =>
        simp only [join, glued]
        obtain is | later := List.mem_cons.mp mem
        · exact List.mem_cons.mpr (.inl is)
        · exact List.mem_cons_of_mem _ (ih later)
      | some whole =>
        simp only [join, glued]
        obtain rfl | later := List.mem_cons.mp mem
        · rw [noFirst] at glued
          cases glued
        · obtain rfl | behind := List.mem_cons.mp (ih later)
          · rw [noSecond] at glued
            cases glued
          · exact List.mem_cons_of_mem _ behind

/-- A value that is never put together of others has been there. -/
theorem mem_of_mem_coalesce {value : ε} (apart : ∀ first second, fragments.glue first second ≠ some value)
    {values : List ε} (mem : value ∈ fragments.coalesce values) : value ∈ values := by
  induction values with
  | nil => exact mem
  | cons first rest ih =>
    rw [coalesce_cons] at mem
    cases together : fragments.coalesce rest with
    | nil =>
      rw [together, join, List.mem_singleton] at mem
      exact List.mem_cons.mpr (.inl mem)
    | cons second others =>
      rw [together] at mem ih
      cases glued : fragments.glue first second with
      | none =>
        simp only [join, glued] at mem
        obtain is | later := List.mem_cons.mp mem
        · exact List.mem_cons.mpr (.inl is)
        · exact List.mem_cons_of_mem _ (ih later)
      | some whole =>
        simp only [join, glued] at mem
        obtain is | later := List.mem_cons.mp mem
        · rw [← is] at glued
          exact absurd glued (apart first second)
        · exact List.mem_cons_of_mem _ (ih (List.mem_cons_of_mem _ later))

end Fragments

end Redemption.Foundation
