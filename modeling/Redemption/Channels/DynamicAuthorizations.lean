import Redemption.Utils.NameList

/-! `DynamicChannelsAuthorizations`: which dynamic channels a client may be asked to open. -/
namespace Redemption.Channels

open Redemption.Foundation Redemption.Utils

/-- `"*"`. -/
def WILDCARD : List Byte := [0x2A]

/-- The loop over the pieces of a list: a wildcard ends it and takes all names away. -/
def extract : List (List Byte) → List (List Byte) → Bool × List (List Byte)
  | [], names => (false, names)
  | piece :: rest, names =>
    let name := trim piece
    if name = [] then extract rest names
    else if name = WILDCARD then (true, [])
    else extract rest (names ++ [name])

/-- The members of `DynamicChannelsAuthorizations`. What its assertions say is part of it. -/
structure DynamicChannelsAuthorizations where
  allAllowed : Bool
  allDenied : Bool
  allowedNames : List (List Byte)
  deniedNames : List (List Byte)
  exclusive : allDenied = !allAllowed
  allowedEmpty : allAllowed = true → allowedNames = []
  deniedEmpty : allDenied = true → deniedNames = []

/-- The wildcards and names as they are after the rules of the constructor. -/
def normalized (allAllowed allDenied : Bool) (allowedNames deniedNames : List (List Byte)) :
    (Bool × List (List Byte)) × (Bool × List (List Byte)) :=
  let (allDenied, deniedNames) :=
    if allowedNames = [] ∧ ¬ allAllowed then (true, []) else (allDenied, deniedNames)
  let (allAllowed, allowedNames) :=
    if deniedNames = [] ∧ ¬ allDenied then (true, []) else (allAllowed, allowedNames)
  let (allDenied, deniedNames) :=
    if allowedNames ≠ [] ∧ deniedNames ≠ [] then (true, []) else (allDenied, deniedNames)
  let allAllowed := if allAllowed ∧ allDenied then false else allAllowed
  ((allAllowed, allowedNames), (allDenied, deniedNames))

/-- What the constructor asserts, for names that come from `extract`. -/
theorem normalized_asserts {allAllowed allDenied : Bool}
    {allowedNames deniedNames : List (List Byte)} (allowed : allAllowed = true → allowedNames = [])
    (denied : allDenied = true → deniedNames = []) :
    (normalized allAllowed allDenied allowedNames deniedNames).2.1 =
        !(normalized allAllowed allDenied allowedNames deniedNames).1.1 ∧
      ((normalized allAllowed allDenied allowedNames deniedNames).1.1 = true →
        (normalized allAllowed allDenied allowedNames deniedNames).1.2 = []) ∧
      ((normalized allAllowed allDenied allowedNames deniedNames).2.1 = true →
        (normalized allAllowed allDenied allowedNames deniedNames).2.2 = []) := by
  cases allAllowed <;> cases allDenied <;> cases allowedNames <;> cases deniedNames <;>
    simp_all [normalized]

theorem extract_empty (pieces names : List (List Byte)) (wild : (extract pieces names).1 = true) :
    (extract pieces names).2 = [] := by
  induction pieces generalizing names with
  | nil => cases wild
  | cons piece rest ih =>
    unfold extract at wild ⊢
    simp only at wild ⊢
    split
    · rename_i blank
      rw [if_pos blank] at wild
      exact ih names wild
    · rename_i named
      rw [if_neg named] at wild
      split
      · rfl
      · rename_i plain
        rw [if_neg plain] at wild
        exact ih _ wild

namespace DynamicChannelsAuthorizations

/-- The constructor. -/
def make (allow deny : List Byte) : DynamicChannelsAuthorizations :=
  let allowed := extract (splitWith COMMA allow) []
  let denied := extract (splitWith COMMA deny) []
  let lists := normalized allowed.1 denied.1 allowed.2 denied.2
  have asserts := normalized_asserts (extract_empty _ _) (extract_empty _ _)
  { allAllowed := lists.1.1
    allDenied := lists.2.1
    allowedNames := lists.1.2
    deniedNames := lists.2.2
    exclusive := asserts.1
    allowedEmpty := asserts.2.1
    deniedEmpty := asserts.2.2 }

def isAuthorized (authorizations : DynamicChannelsAuthorizations) (name : List Byte) : Bool :=
  let names :=
    if authorizations.allAllowed then authorizations.deniedNames else authorizations.allowedNames
  decide (name ∈ names) != authorizations.allAllowed

end DynamicChannelsAuthorizations

/-- What the lists say about a name: all that is not denied, if all is allowed and not all is
denied; else what is allowed, or all, if there is something allowed and nothing denied. -/
def Authorises (allow deny : List (List Byte)) (name : List Byte) : Prop :=
  if WILDCARD ∈ allow then WILDCARD ∉ deny ∧ name ∉ deny
  else allow ≠ [] ∧ (name ∈ allow ∨ deny = [])

/-- The loop finds the names that are listed, unless one is the wildcard. -/
theorem extract_eq (pieces names : List (List Byte)) :
    extract pieces names =
      if WILDCARD ∈ (pieces.map trim).filter (· ≠ []) then (true, [])
      else (false, names ++ (pieces.map trim).filter (· ≠ [])) := by
  induction pieces generalizing names with
  | nil => simp [extract]
  | cons piece rest ih =>
    rw [extract]
    simp only [List.map_cons]
    by_cases blank : trim piece = []
    · rw [if_pos blank, ih, List.filter_cons_of_neg (by simpa using blank)]
    · rw [if_neg blank, List.filter_cons_of_pos (by simpa using blank)]
      by_cases wild : trim piece = WILDCARD
      · rw [if_pos wild, if_pos (by rw [wild]; exact List.mem_cons_self)]
      · have apart : WILDCARD ≠ trim piece := fun same => wild same.symm
        simp only [if_neg wild, ih, List.mem_cons, apart, false_or, List.append_assoc,
          List.singleton_append]

theorem extract_listed (text : List Byte) :
    extract (splitWith COMMA text) [] =
      if WILDCARD ∈ listed text then (true, []) else (false, listed text) :=
  extract_eq _ _

private theorem normalized_wild (denied : List (List Byte)) :
    normalized true false [] denied = ((true, []), (false, denied)) := by
  cases denied <;> rfl

private theorem normalized_both : normalized true true [] [] = ((false, []), (true, [])) := rfl

private theorem normalized_none (allDenied : Bool) (denied : List (List Byte)) :
    normalized false allDenied [] denied = ((false, []), (true, [])) := by
  cases allDenied <;> rfl

private theorem normalized_open {allowed : List (List Byte)} (some : allowed ≠ []) :
    normalized false false allowed [] = ((true, []), (false, [])) := by
  simp [normalized, some]

private theorem normalized_named {allDenied : Bool} {allowed denied : List (List Byte)}
    (some : allowed ≠ []) (less : allDenied = true ∧ denied = [] ∨ denied ≠ []) :
    normalized false allDenied allowed denied = ((false, allowed), (true, [])) := by
  rcases less with ⟨all, none⟩ | named
  · simp [normalized, some, all, none]
  · simp [normalized, some, named]

theorem isAuthorized_iff (allow deny name : List Byte) :
    (DynamicChannelsAuthorizations.make allow deny).isAuthorized name = true ↔
      Authorises (listed allow) (listed deny) name := by
  unfold DynamicChannelsAuthorizations.make DynamicChannelsAuthorizations.isAuthorized Authorises
  simp only [extract_listed]
  generalize listed allow = allowed
  generalize listed deny = denied
  by_cases wild : WILDCARD ∈ allowed
  · by_cases closed : WILDCARD ∈ denied
    · simp only [if_pos wild, if_pos closed, normalized_both]
      simp [closed]
    · simp only [if_pos wild, if_neg closed, normalized_wild]
      simp [closed]
  · simp only [if_neg wild]
    by_cases none : allowed = []
    · subst none
      simp only [normalized_none]
      simp
    · by_cases open' : denied = []
      · subst open'
        simp only [List.not_mem_nil, if_false, normalized_open none]
        simp [none]
      · have less : (if WILDCARD ∈ denied then (true, []) else (false, denied)).1 = true ∧
            (if WILDCARD ∈ denied then (true, []) else (false, denied)).2 = [] ∨
            (if WILDCARD ∈ denied then (true, []) else (false, denied)).2 ≠ [] := by
          split
          · exact .inl ⟨rfl, rfl⟩
          · exact .inr open'
        simp only [normalized_named none less]
        simp [none, open']

end Redemption.Channels
