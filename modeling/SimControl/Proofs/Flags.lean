/-
Sets of flags.

A set of flags is read from tokens each of which is one of the flags, in any order and however
often they are repeated, and its members are those that are spelled among the tokens.
-/
import Mathlib.Data.List.Nodup
import SimControl.Proofs.Bags

namespace SimControl

variable {α : Type} {text : α → Token} {tokens : List Token}

/-- The set of the values that are spelled among the tokens. -/
def EnumSet.spelledIn (text : α → Token) (tokens : List Token) : EnumSet α :=
  ⟨fun a => decide (text a ∈ tokens)⟩

@[simp] theorem EnumSet.contains_spelledIn (a : α) :
    (spelledIn text tokens).contains a = decide (text a ∈ tokens) := rfl

theorem EnumSet.spelledIn_nil : spelledIn text [] = ∅ := by
  ext a
  simp

theorem EnumSet.spelledIn_cons [DecidableEq α] (htext : text.Injective) (a : α)
    (tokens : List Token) :
    spelledIn text (text a :: tokens) = singleton a ∪ spelledIn text tokens := by
  ext b
  simp [htext.eq_iff]

theorem EnumSet.eq_spelledIn_iff {s : EnumSet α} :
    s = spelledIn text tokens ↔ ∀ a, s.contains a = true ↔ text a ∈ tokens := by
  constructor
  · rintro rfl a
    exact decide_eq_true_iff
  · intro h
    ext a
    rw [Bool.eq_iff_iff, h a]
    exact decide_eq_true_iff.symm

theorem Enumerated.injective [Enumerated α] (h : (Enumerated.all.map text).Nodup) :
    text.Injective := fun a b hab =>
  List.inj_on_of_nodup_map h (Enumerated.mem_all a) (Enumerated.mem_all b) hab

namespace Parser

variable [Enumerated α] [DecidableEq α]

/-! ## One flag -/

theorem reads_flag (htext : text.Injective) (a : α) :
    (oneOf (flags text)).Reads [text a] (.singleton a) := by
  intro position rest
  have hflag : ((literal (text a) a).map EnumSet.singleton).run ⟨position, [text a] ++ rest⟩ =
      .done ⟨.singleton a, ⟨position + 1, rest⟩, none⟩ :=
    map_run_eq_done_iff.mpr ⟨_, literal_run_eq_done_iff.mpr ⟨rest, rfl, rfl⟩, rfl⟩
  refine oneOf_run_of_agree (fun q hq => ?_) ⟨_, ?_, hflag⟩
  · obtain ⟨p, hp, rfl⟩ := List.mem_map.mp hq
    obtain ⟨b, _, rfl⟩ := List.mem_map.mp hp
    by_cases hb : a = b
    · subst hb
      exact .inl hflag
    · have hne : some (text a) ≠ some (text b) := fun h => hb (htext (Option.some.inj h))
      exact .inr ⟨_, map_run_eq_failed_iff.mpr (literal_run_of_peek_ne b hne)⟩
  · exact List.mem_map_of_mem (List.mem_map_of_mem (Enumerated.mem_all a))

theorem Reads.eq_flag {group : List Token} {value : EnumSet α}
    (h : (oneOf (flags text)).Reads group value) :
    ∃ a, group = [text a] ∧ value = .singleton a := by
  obtain ⟨p, hp, hrun⟩ := exists_mem_of_oneOf (h 0 [])
  obtain ⟨q, hq, rfl⟩ := List.mem_map.mp hp
  obtain ⟨a, _, rfl⟩ := List.mem_map.mp hq
  obtain ⟨m, hm, hmap⟩ := map_run_eq_done_iff.mp hrun
  obtain ⟨rest, hrest, rfl⟩ := literal_run_eq_done_iff.mp hm
  have hnil : rest = [] := congrArg (fun m : Match (EnumSet α) => m.cursor.rest) hmap
  have hvalue : EnumSet.singleton a = value :=
    congrArg (fun m : Match (EnumSet α) => m.value) hmap
  have hgroup : group ++ [] = text a :: rest := hrest
  rw [hnil, List.append_nil] at hgroup
  exact ⟨a, hgroup, hvalue.symm⟩

/-! ## Any number of flags -/

/-- What is made of flags says which of them it is made of. -/
theorem Groups.flags (htext : text.Injective) {values : List (EnumSet α)}
    (h : (oneOf (Parser.flags text)).Groups tokens values) :
    (∀ t ∈ tokens, t ∈ Enumerated.all.map text) ∧ values.length = tokens.length ∧
      Accumulator.foldAll values = .spelledIn text tokens := by
  induction h with
  | nil =>
    rw [EnumSet.spelledIn_nil]
    exact ⟨by simp, rfl, rfl⟩
  | @cons group tokens value values _ hread _ ih =>
    obtain ⟨hmem, hlength, hvalue⟩ := ih
    obtain ⟨a, rfl, rfl⟩ := hread.eq_flag
    refine ⟨fun t ht => ?_, congrArg Nat.succ hlength, ?_⟩
    · rcases List.mem_cons.mp ht with rfl | ht
      · exact List.mem_map_of_mem (Enumerated.mem_all a)
      · exact hmem t ht
    · rw [Accumulator.foldAll_cons, hvalue]
      exact (EnumSet.spelledIn_cons htext a tokens).symm

theorem exists_groups_flags (htext : text.Injective)
    (h : ∀ t ∈ tokens, t ∈ Enumerated.all.map text) :
    ∃ values, (oneOf (flags text)).Groups tokens values := by
  induction tokens with
  | nil => exact ⟨[], .nil⟩
  | cons t tokens ih =>
    obtain ⟨a, _, rfl⟩ := List.mem_map.mp (h t List.mem_cons_self)
    obtain ⟨values, hgroups⟩ := ih fun t ht => h t (List.mem_cons_of_mem _ ht)
    exact ⟨_, .cons (List.cons_ne_nil _ _) (reads_flag htext a) hgroups⟩

theorem flagSet_parse_eq_done_iff (h : (Enumerated.all.map text).Nodup) {minimum : Nat}
    {value : EnumSet α} :
    (flagSet minimum text).parse tokens = .done value ↔
      minimum ≤ tokens.length ∧ (∀ t ∈ tokens, t ∈ Enumerated.all.map text) ∧
        value = .spelledIn text tokens := by
  have htext := Enumerated.injective h
  rw [flagSet, (bag_flags h).parse_eq_done_iff]
  constructor
  · rintro ⟨values, hgroups, hmany, rfl⟩
    obtain ⟨hmem, hlength, hvalue⟩ := hgroups.flags htext
    exact ⟨hlength ▸ hmany, hmem, hvalue⟩
  · rintro ⟨hmany, hmem, rfl⟩
    obtain ⟨values, hgroups⟩ := exists_groups_flags htext hmem
    obtain ⟨_, hlength, hvalue⟩ := hgroups.flags htext
    exact ⟨values, hgroups, hlength ▸ hmany, hvalue.symm⟩

theorem flagSet_section (h : (Enumerated.all.map text).Nodup) (minimum : Nat) :
    (flagSet minimum text).Section (· ∈ Enumerated.all.map text) := by
  have hplain : (oneOf (flags text)).Plain :=
    plain_oneOf (fun _ => plain_of_mem_flags) (pairwise_excludes_flags h)
  exact (collects_gather minimum hplain).section hplain
    (steady_oneOf fun _ => steady_of_mem_flags) (headedBy_oneOf fun _ => headedBy_of_mem_flags)

end Parser
end SimControl
