import Disasm68k.Proofs.Regions

/-!
# When the order of rules matters

A table is tried from top to bottom, so its order could matter anywhere. It matters for few pairs
of rules: those of a general rule and an exception to it that stands above it. All other pairs
have no word in common. So the rules of a table may be tried in any order that has every rule
below its exceptions, and in no other order.

- `Rule.exceptions`: the rules above a rule that share words with it;
- `Rule.exception_of_accepts`: no two other rules share a word;
- `Rule.exists_word_of_mem_table`, `Rule.exists_shared_word`: every rule is the first for some
  word, and every exception for a word that the general rule would take;
- `Rule.KeepsExceptions`: a list of rules that has every rule below its exceptions;
- `Rule.firstIn?_eq_iff_keepsExceptions`: the reorderings of a table that choose the same rules;
- `Fetch.decodeWordBy_congr`: lists that choose the same rule for a word decode it alike;
- `Rule.order_matters_for_exceptions_only`: the results together.
-/

namespace Disasm68k

namespace Rule

open Opcode

/-! ## Exceptions -/

/-- The exceptions to a rule: they stand above it in the table and take some of its words. -/
def exceptions : Rule → List Rule
  | immediateOp => [orToCcr, andToCcr, eorToCcr, orToSr, andToSr, eorToSr]
  | bitDynamic => [movep]
  | moveFromSr | moveFromCcr | moveToCcr | moveToSr => [lea]
  | tas => [illegal, lea]
  | pea => [swap]
  | movem => [ext]
  | scc => [dbcc]
  | addSubQuick => [dbcc, scc]
  | or => [divu, divs, sbcd]
  | subx => [suba]
  | sub => [suba, subx]
  | cmpm => [cmpa, cmp]
  | eor => [cmpa, cmp, cmpm]
  | and => [mulu, muls, abcd, exgData, exgAddress, exgMixed]
  | addx => [adda]
  | add => [adda, addx]
  | _ => []

variable {rule earlier later : Rule} {rules : List Rule} {word : Int}

/-- In every table the regions of two rules meet only if one is an exception to the other. -/
theorem pairwise_table (group : Int) :
    (table group).Pairwise fun earlier later =>
      earlier.region.meets later.region = true → earlier ∈ later.exceptions := by
  unfold table
  split
  case h_15 => exact .nil
  all_goals decide +kernel

/-- **Only exceptions share words.** If two rules of a table accept a word, the upper one is an
exception to the lower one. -/
theorem exception_of_accepts (hbefore : [earlier, later].Sublist (table (group word)))
    (hearlier : earlier.accepts word = true) (hlater : later.accepts word = true) :
    earlier ∈ later.exceptions := by
  have hpair := List.pairwise_iff_forall_sublist.mp (pairwise_table (group word)) hbefore
  exact hpair (Region.meets_of_contains (contains_of_accepts hearlier) (contains_of_accepts hlater))

/-- No rule is an exception to itself. -/
theorem ne_of_mem_exceptions (h : earlier ∈ later.exceptions) : later ≠ earlier := by
  rintro rfl
  cases later <;> revert h <;> decide

/-! ## Words of a rule -/

/-- The word with the given fields. -/
def wordOf (group rx opmode mode reg : Int) : Int :=
  0x1000 * group + 0x200 * rx + 0x40 * opmode + 8 * mode + reg

/-- A word of a group, in a region, with a property. -/
def Region.Has (region : Region) (group : Int) (P : Int → Prop) : Prop :=
  ∃ reg ∈ region.regs, ∃ mode ∈ region.modes, ∃ opmode ∈ region.opmodes, ∃ rx ∈ region.rxs,
    Opcode.group (wordOf group rx opmode mode reg) = group ∧ P (wordOf group rx opmode mode reg)

instance (region : Region) (group : Int) (P : Int → Prop) [DecidablePred P] :
    Decidable (region.Has group P) :=
  inferInstanceAs (Decidable (∃ reg ∈ region.regs, _))

theorem Region.exists_of_has {region : Region} {g : Int} {P : Int → Prop} (h : region.Has g P) :
    ∃ word, group word = g ∧ P word := by
  obtain ⟨reg, -, mode, -, opmode, -, rx, -, hword⟩ := h
  exact ⟨_, hword⟩

/-- Every rule of a table is the first one for some word of the group. -/
theorem exists_word_of_mem_table (g : Int) :
    ∀ rule ∈ table g, ∃ word, group word = g ∧ first? word = some rule := by
  have hsearch : ∀ rule ∈ table g, rule.region.Has g fun word => first? word = some rule := by
    unfold table
    split
    case h_15 => exact List.forall_mem_nil _
    all_goals decide +kernel
  intro rule hmem
  exact Region.exists_of_has (hsearch rule hmem)

/-- Every exception is the first rule for a word that the general rule would take. -/
theorem exists_shared_word (g : Int) :
    ∀ later ∈ table g, ∀ earlier ∈ later.exceptions,
      ∃ word, group word = g ∧ first? word = some earlier ∧ later.accepts word = true := by
  have hsearch : ∀ later ∈ table g, ∀ earlier ∈ later.exceptions, earlier.region.Has g fun word =>
      first? word = some earlier ∧ later.accepts word = true := by
    unfold table
    split
    case h_15 => exact List.forall_mem_nil _
    all_goals decide +kernel
  intro later hlater earlier hearlier
  exact Region.exists_of_has (hsearch later hlater earlier hearlier)

/-! ## Lists of rules in another order -/

/-- The first rule that accepts a word stands above all others that accept it. -/
theorem before_of_firstIn? (h : firstIn? rules word = some earlier) (hmem : later ∈ rules)
    (hlater : later.accepts word = true) (hne : later ≠ earlier) :
    [earlier, later].Sublist rules := by
  obtain ⟨-, above, below, rfl, habove⟩ := List.find?_eq_some_iff_append.mp h
  have hbelow : later ∈ below := by
    rcases List.mem_append.mp hmem with hin | hin
    · have hrejects := habove later hin
      rw [hlater] at hrejects
      cases hrejects
    · exact (List.mem_cons.mp hin).resolve_left hne
  have hpair : [earlier, later].Sublist (earlier :: below) :=
    (List.singleton_sublist.mpr hbelow).cons_cons earlier
  exact hpair.trans (List.sublist_append_right above _)

/-- Where no rule stands twice, of two rules only one stands above the other. -/
theorem not_before_of_before (hnodup : rules.Nodup) (h : [earlier, later].Sublist rules) :
    ¬ [later, earlier].Sublist rules := by
  intro h'
  induction rules with
  | nil => cases h
  | cons head rules ih =>
    rw [List.nodup_cons] at hnodup
    obtain ⟨hhead, hnodup⟩ := hnodup
    cases h with
    | cons _ hrest =>
      cases h' with
      | cons _ hrest' => exact ih hnodup hrest hrest'
      | cons_cons _ _ => exact hhead (hrest.subset (by simp))
    | cons_cons _ hrest =>
      cases h' with
      | cons _ hrest' => exact hhead (hrest'.subset (by simp))
      | cons_cons _ hrest' => exact hhead (hrest'.subset (by simp))

/-- Every rule stands below its exceptions. -/
def KeepsExceptions (rules : List Rule) : Prop :=
  ∀ later ∈ rules, ∀ earlier ∈ later.exceptions, [earlier, later].Sublist rules

instance (rules : List Rule) : Decidable (KeepsExceptions rules) :=
  inferInstanceAs (Decidable (∀ later ∈ rules, _))

theorem nodup_table (g : Int) : (table g).Nodup := by
  unfold table
  split
  case h_15 => exact .nil
  all_goals decide

/-- A reordering of a table that has every rule below its exceptions chooses the same rules. -/
theorem firstIn?_eq_of_keepsExceptions (hperm : rules.Perm (table (group word)))
    (hkeeps : KeepsExceptions rules) : firstIn? rules word = first? word := by
  cases hfirst : first? word with
  | none =>
    -- No rule of the table accepts the word, and there are no others.
    refine List.find?_eq_none.mpr ?_
    intro rule hmem
    exact List.find?_eq_none.mp hfirst rule (hperm.subset hmem)
  | some rule =>
    have haccepts := accepts_of_first? hfirst
    have hmem := mem_table_of_first? hfirst
    obtain ⟨found, hfound⟩ : ∃ found, firstIn? rules word = some found :=
      Option.isSome_iff_exists.mp
        (List.find?_isSome.mpr ⟨rule, hperm.mem_iff.mpr hmem, haccepts⟩)
    have hfaccepts : found.accepts word = true := by simpa using List.find?_some hfound
    have hfmem : found ∈ rules := List.mem_of_find?_eq_some hfound
    rw [hfound]
    by_cases hsame : found = rule
    · rw [hsame]
    · -- Both rules accept the word, so `rule` is an exception to `found`, which is above it here.
      have hbefore := before_of_firstIn? hfirst (hperm.subset hfmem) hfaccepts hsame
      have hexception := exception_of_accepts hbefore haccepts hfaccepts
      have habove := before_of_firstIn? hfound (hperm.mem_iff.mpr hmem) haccepts (Ne.symm hsame)
      have hnodup : rules.Nodup := hperm.nodup_iff.mpr (nodup_table _)
      exact absurd habove (not_before_of_before hnodup (hkeeps found hfmem rule hexception))

/-- **The orders that choose the same rules.** They are those that have every rule below its
exceptions, because each exception is needed for some word. -/
theorem firstIn?_eq_iff_keepsExceptions {g : Int} (hperm : rules.Perm (table g)) :
    (∀ word, group word = g → firstIn? rules word = first? word) ↔ KeepsExceptions rules := by
  constructor
  · intro hsame later hlater earlier hearlier
    obtain ⟨word, hgroup, hfirst, haccepts⟩ :=
      exists_shared_word g later (hperm.subset hlater) earlier hearlier
    exact before_of_firstIn? ((hsame word hgroup).trans hfirst) hlater haccepts
      (ne_of_mem_exceptions hearlier)
  · rintro hkeeps word rfl
    exact firstIn?_eq_of_keepsExceptions hperm hkeeps

/-- The tables have every rule below its exceptions. -/
theorem keepsExceptions_table (g : Int) : KeepsExceptions (table g) := by
  refine (firstIn?_eq_iff_keepsExceptions (.refl _)).mp ?_
  rintro word rfl
  rfl

end Rule

/-! ## Decoding by a list of rules -/

/-- Lists that choose the same rule for a word decode it alike. -/
theorem Fetch.decodeWordBy_congr {rules rules' : List Rule} {word : Int}
    (h : Rule.firstIn? rules word = Rule.firstIn? rules' word) :
    decodeWordBy rules word = decodeWordBy rules' word := by
  unfold decodeWordBy Opcode.formBy
  rw [h]

namespace Rule

open Opcode

/-- **The order of rules matters for exceptions only.** If two rules of a table accept a word, the
upper one is an exception to the lower one. Every exception is the first rule for a word that the
general rule would take, and every rule of a table is the first one for some word of the group. So
a reordering of a table chooses the same rules exactly if it has every rule below its exceptions,
and then every word of the group is decoded as before at every cursor. -/
theorem order_matters_for_exceptions_only :
    (∀ (word : Int) (earlier later : Rule), [earlier, later].Sublist (table (group word)) →
      earlier.accepts word = true → later.accepts word = true → earlier ∈ later.exceptions) ∧
    (∀ g, ∀ later ∈ table g, ∀ earlier ∈ later.exceptions, ∃ word, group word = g ∧
      [earlier, later].Sublist (table g) ∧ first? word = some earlier ∧
      later.accepts word = true) ∧
    (∀ g, ∀ rule ∈ table g, ∃ word, group word = g ∧ first? word = some rule) ∧
    ∀ (g : Int) (rules : List Rule), rules.Perm (table g) →
      ((∀ word, group word = g → firstIn? rules word = first? word) ↔ KeepsExceptions rules) ∧
      (KeepsExceptions rules → ∀ (word : Int) (cursor : Cursor), group word = g →
        Fetch.decodeWordBy rules word cursor = Fetch.decodeWord word cursor) := by
  refine ⟨fun _ _ _ => exception_of_accepts, ?_, exists_word_of_mem_table, ?_⟩
  · intro g later hlater earlier hearlier
    obtain ⟨word, rfl, hfirst, haccepts⟩ := exists_shared_word g later hlater earlier hearlier
    exact ⟨word, rfl, keepsExceptions_table _ later hlater earlier hearlier, hfirst, haccepts⟩
  · intro g rules hperm
    refine ⟨firstIn?_eq_iff_keepsExceptions hperm, ?_⟩
    rintro hkeeps word cursor rfl
    exact congrFun (Fetch.decodeWordBy_congr (firstIn?_eq_of_keepsExceptions hperm hkeeps)) cursor

/-- The exceptions to a logical and may be tried in any order, but not after it. -/
theorem order_matters_below_exchanges :
    (∀ cursor : Cursor,
      Fetch.decodeWordBy [exgMixed, muls, abcd, exgAddress, mulu, exgData, and] 0xC189 cursor =
        Fetch.decodeWord 0xC189 cursor) ∧
    ¬ ∀ word, group word = 12 →
      firstIn? [mulu, muls, abcd, exgData, exgAddress, and, exgMixed] word = first? word := by
  obtain ⟨-, -, -, hreorder⟩ := order_matters_for_exceptions_only
  refine ⟨?_, ?_⟩
  · intro cursor
    exact (hreorder 12 [exgMixed, muls, abcd, exgAddress, mulu, exgData, and] (by decide)).2
      (by decide) 0xC189 cursor rfl
  · rw [(hreorder 12 [mulu, muls, abcd, exgData, exgAddress, and, exgMixed] (by decide)).1]
    decide

end Rule

end Disasm68k
