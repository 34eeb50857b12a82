/-
Options in another order.

What a bag puts together is a fold, so that it does not depend on the order of the options if
the values of any two of them commute.  Sets and truth values commute always, and of two
optional values the last one counts, so that they commute where one of them is missing.  An
option gives such a value only if it begins with a word of its own, and no two options do
where no such word is used twice.
-/
import Mathlib.Data.List.Perm.Basic
import SimControl.Proofs.Bags

namespace SimControl

/-! ## Values that commute -/

namespace Accumulator

/-- It makes no difference which of the two is given first. -/
def Commutes {α : Type} [Accumulator α] (a b : α) : Prop := append a b = append b a

variable {α : Type}

theorem commutes_option {a b : Option α} (h : a = none ∨ b = none) : Commutes a b := by
  rcases h with rfl | rfl
  · cases b <;> rfl
  · cases a <;> rfl

theorem commutes_bool (a b : Bool) : Commutes a b := Bool.or_comm a b

theorem commutes_enumSet (a b : EnumSet α) : Commutes a b :=
  EnumSet.ext (funext fun _ => Bool.or_comm ..)

theorem commutes_treeSet [Ord α] [Std.TransOrd α] [Std.LawfulEqOrd α] (a b : Std.ExtTreeSet α) :
    Commutes a b := by
  refine Std.ExtTreeSet.ext_mem fun k => ?_
  show k ∈ a ∪ b ↔ k ∈ b ∪ a
  rw [Std.ExtTreeSet.mem_union_iff, Std.ExtTreeSet.mem_union_iff, or_comm]

theorem foldAll_perm [Accumulator α] [LawfulAccumulator α] {xs ys : List α} (h : xs.Perm ys)
    (hcommutes : ∀ a ∈ xs, ∀ b ∈ xs, Commutes a b) : foldAll xs = foldAll ys := by
  refine h.foldl_eq' (fun a ha b hb c => ?_) identity
  have hab : append a b = append b a := hcommutes a ha b hb
  rw [LawfulAccumulator.append_assoc, LawfulAccumulator.append_assoc, hab]

end Accumulator

open Accumulator

theorem Configuration.commutes {a b : Configuration}
    (h : a.deviceSet = none ∨ b.deviceSet = none) : Commutes a b := by
  have hset : Commutes a.deviceSet b.deviceSet := commutes_option h
  show Configuration.mk _ _ _ = Configuration.mk _ _ _
  rw [commutes_enumSet a.output b.output, commutes_enumSet a.management b.management, hset]

theorem TargetQuery.commutes {a b : TargetQuery} (h : a.first = none ∨ b.first = none) :
    Commutes a b := by
  have hfirst : Commutes a.first b.first := commutes_option h
  show TargetQuery.mk _ _ _ _ _ _ = TargetQuery.mk _ _ _ _ _ _
  rw [commutes_treeSet a.udids b.udids, commutes_enumSet a.states b.states,
    commutes_enumSet a.types b.types, commutes_enumSet a.osVersions b.osVersions,
    commutes_enumSet a.devices b.devices, hfirst]

theorem ListenInterface.commutes {a b : ListenInterface}
    (hsocket : a.socket = none ∨ b.socket = none) (hhttp : a.http = none ∨ b.http = none) :
    Commutes a b := by
  have hsocket' : Commutes a.socket b.socket := commutes_option hsocket
  have hhttp' : Commutes a.http b.http := commutes_option hhttp
  show ListenInterface.mk _ _ _ = ListenInterface.mk _ _ _
  rw [commutes_bool a.stdin b.stdin, hsocket', hhttp']

theorem IndividualCreation.commutes {a b : IndividualCreation} (hos : a.os = none ∨ b.os = none)
    (hmodel : a.model = none ∨ b.model = none)
    (haux : a.auxDirectory = none ∨ b.auxDirectory = none) : Commutes a b := by
  have hos' : Commutes a.os b.os := commutes_option hos
  have hmodel' : Commutes a.model b.model := commutes_option hmodel
  have haux' : Commutes a.auxDirectory b.auxDirectory := commutes_option haux
  show IndividualCreation.mk _ _ _ = IndividualCreation.mk _ _ _
  rw [hos', hmodel', haux']

/-! ## Options -/

/-- At most one of `groups` begins with one of `words`. -/
def AtMostOnce (words : List Token) (groups : List (List Token)) : Prop :=
  groups.countP (fun group => group.head?.any (· ∈ words)) ≤ 1

instance (words : List Token) (groups : List (List Token)) : Decidable (AtMostOnce words groups) :=
  inferInstanceAs (Decidable (_ ≤ 1))

theorem AtMostOnce.eq {words : List Token} {groups : List (List Token)}
    (h : AtMostOnce words groups) {group group' : List Token} (hmem : group ∈ groups)
    (hmem' : group' ∈ groups) (hhead : ∃ t ∈ group.head?, t ∈ words)
    (hhead' : ∃ t ∈ group'.head?, t ∈ words) : group = group' := by
  let begins (group : List Token) : Bool := group.head?.any (· ∈ words)
  have hfilter {g : List Token} (hg : g ∈ groups) (hgHead : ∃ t ∈ g.head?, t ∈ words) :
      g ∈ groups.filter begins := by
    obtain ⟨t, ht, hwords⟩ := hgHead
    refine List.mem_filter.mpr ⟨hg, ?_⟩
    show g.head?.any (· ∈ words) = true
    rw [show g.head? = some t from ht, Option.any_some]
    exact decide_eq_true hwords
  have hlength : (groups.filter begins).length ≤ 1 := by
    rw [← List.countP_eq_length_filter]
    exact h
  obtain ⟨only, honly⟩ : ∃ only, groups.filter begins ⊆ [only] := by
    cases hbegins : groups.filter begins with
    | nil => exact ⟨group, List.nil_subset _⟩
    | cons only others =>
      rw [hbegins, List.length_cons] at hlength
      have hnone : others = [] := List.length_eq_zero_iff.mp (by omega)
      exact ⟨only, hnone ▸ List.Subset.refl _⟩
  have hgroup := List.mem_singleton.mp (honly (hfilter hmem hhead))
  have hgroup' := List.mem_singleton.mp (honly (hfilter hmem' hhead'))
  rw [hgroup, hgroup']

namespace Parser

variable {α β γ : Type}

/-- A token list that `p` reads alone, and that is one token, or one of `keys` and what belongs
to it. -/
structure IsOption (p : Parser α) (keys : List Token) (group : List Token) : Prop where
  accepted : ∃ a, p.parse group = .done a
  shape : (∃ t, group = [t]) ∨ ∃ key ∈ keys, ∃ operand, group = [key, operand]

theorem IsOption.flag {p : Parser α} {keys : List Token} {t : Token} {a : α}
    (h : p.parse [t] = .done a) : p.IsOption keys [t] := ⟨⟨a, h⟩, .inl ⟨t, rfl⟩⟩

theorem IsOption.pair {p : Parser α} {keys : List Token} {key operand : Token} {a : α}
    (h : p.parse [key, operand] = .done a) (hkey : key ∈ keys) : p.IsOption keys [key, operand] :=
  ⟨⟨a, h⟩, .inr ⟨key, hkey, operand, rfl⟩⟩

theorem IsOption.ne_nil {p : Parser α} {keys group : List Token} (h : p.IsOption keys group) :
    group ≠ [] := by
  rcases h.shape with ⟨t, rfl⟩ | ⟨key, _, operand, rfl⟩
  · exact List.cons_ne_nil _ _
  · exact List.cons_ne_nil _ _

theorem IsOption.of_described {p : Parser α} {description : String} {keys group : List Token}
    (h : (p.described description).IsOption keys group) : p.IsOption keys group :=
  ⟨h.accepted, h.shape⟩

theorem IsOption.of_map {p : Parser γ} {f : γ → α} {keys group : List Token}
    (h : (p.map f).IsOption keys group) : p.IsOption keys group := by
  obtain ⟨_, hvalue⟩ := h.accepted
  obtain ⟨a, ha, _⟩ := map_parse_eq_done_iff.mp hvalue
  exact ⟨⟨a, ha⟩, h.shape⟩

/-- Other options than the word that stands alone begin with another word. -/
theorem IsOption.of_oneOf_literal {p : Parser α} {word : Token} {value : α}
    {keys group : List Token} (h : (oneOf [literal word value, p]).IsOption keys group)
    (hword : group ≠ [word]) : p.IsOption keys group ∧ group.head? ≠ some word := by
  obtain ⟨a, ha⟩ := h.accepted
  rcases oneOf_literal_parse_eq_done_iff.mp ha with ⟨hgroup, _⟩ | ⟨hhead, ha⟩
  · exact absurd hgroup hword
  · exact ⟨⟨⟨a, ha⟩, h.shape⟩, hhead⟩

theorem Reads.unique {p : Parser α} {group : List Token} {a b : α} (ha : p.Reads group a)
    (hb : p.Reads group b) : a = b := by
  have hrun := (ha 0 []).symm.trans (hb 0 [])
  exact congrArg Match.value (Outcome.done.inj hrun)

/-- Whatever `p` reads has no `field`, unless it begins with one of `words`. -/
def Marks (p : Parser α) (field : α → Option β) (words : List Token) : Prop :=
  ∀ c m, p.run c = .done m → field m.value ≠ none → ∃ t ∈ c.rest.head?, t ∈ words

theorem Ensures.marks {p : Parser α} {field : α → Option β} (h : p.Ensures fun a => field a = none)
    (words : List Token) : p.Marks field words :=
  fun c m hm hfield => absurd (h c m hm) hfield

theorem marks_map (p : Parser γ) {f : γ → α} {field : α → Option β} (h : ∀ a, field (f a) = none)
    (words : List Token) : (p.map f).Marks field words := by
  have hnone : (p.map f).Ensures fun a => field a = none := (ensures_true p).map fun a _ => h a
  exact hnone.marks words

theorem HeadedBy.marks {p : Parser α} {words : List Token} (h : p.HeadedBy (· ∈ words))
    (hneeds : p.NeedsToken) (field : α → Option β) : p.Marks field words := by
  intro c m hm _
  obtain ⟨position, rest⟩ := c
  cases rest with
  | nil =>
    obtain ⟨f, hf⟩ := hneeds position
    rw [hf] at hm
    cases hm
  | cons t rest => exact ⟨t, rfl, h.of_done hm rfl⟩

theorem marks_literal {text : Token} {value : α} {field : α → Option β} (h : field value = none)
    (words : List Token) : (literal text value).Marks field words := by
  have hnone : (literal text value).Ensures fun a => field a = none := ensures_literal h
  exact hnone.marks words

/-- Of two options, one has no `field`, or they are the same option. -/
theorem field_eq_none_of_atMostOnce {parts : List (Parser α)} {field : α → Option β}
    {words : List Token} (hmarks : ∀ p ∈ parts, p.Marks field words)
    {groups : List (List Token)} (honce : AtMostOnce words groups) {group group' : List Token}
    (hmem : group ∈ groups) (hmem' : group' ∈ groups) {a b : α}
    (ha : (oneOf parts).Reads group a) (hb : (oneOf parts).Reads group' b) :
    a = b ∨ field a = none ∨ field b = none := by
  have hhead {group : List Token} {a : α} (h : (oneOf parts).Reads group a)
      (hfield : field a ≠ none) : ∃ t ∈ group.head?, t ∈ words := by
    obtain ⟨p, hp, hrun⟩ := exists_mem_of_oneOf (h 0 [])
    obtain ⟨t, ht, hwords⟩ := hmarks p hp _ _ hrun hfield
    rw [List.append_nil] at ht
    exact ⟨t, ht, hwords⟩
  by_cases hfield : field a = none
  · exact .inr (.inl hfield)
  by_cases hfield' : field b = none
  · exact .inr (.inr hfield')
  have hsame := honce.eq hmem hmem' (hhead ha hfield) (hhead hb hfield')
  rw [← hsame] at hb
  exact .inl (ha.unique hb)

/-! ## Options of a bag -/

theorem head?_flatten_ne {groups : List (List Token)} {word : Token}
    (h : ∀ group ∈ groups, group.head? ≠ some word) : groups.flatten.head? ≠ some word := by
  induction groups with
  | nil => simp
  | cons group groups ih =>
    rw [List.flatten_cons]
    refine head?_append_ne (h group List.mem_cons_self) (ih fun g hg => ?_)
    exact h g (List.mem_cons_of_mem _ hg)

theorem head?_flatten_append_ne {groups : List (List Token)} {word : Token} (hsome : groups ≠ [])
    (h : ∀ group ∈ groups, group ≠ [] ∧ group.head? ≠ some word) (rest : List Token) :
    (groups.flatten ++ rest).head? ≠ some word := by
  obtain ⟨group, more, rfl⟩ := List.exists_cons_of_ne_nil hsome
  obtain ⟨hne, hhead⟩ := h group List.mem_cons_self
  obtain ⟨t, own, rfl⟩ := List.exists_cons_of_ne_nil hne
  exact hhead

section Gathering

variable [Accumulator α] {parts : List (Parser α)} {minimum : Nat}

/-- An option is one group, as a key says nothing without its operand. -/
theorem Bag.reads_of_isOption [LawfulAccumulator α] (h : Bag parts) {keys : List Token}
    (hkeys : ∀ key ∈ keys, ∃ f, (oneOf parts).run ⟨0, [key]⟩ = .failed f) {group : List Token}
    (hgroup : (gather minimum parts).IsOption keys group) {a : α}
    (ha : (gather minimum parts).parse group = .done a) : (oneOf parts).Reads group a := by
  obtain ⟨values, hgroups, _, rfl⟩ := h.parse_eq_done_iff.mp ha
  cases hgroups with
  | nil => exact absurd rfl hgroup.ne_nil
  | @cons first tokens value values hsome hread hmore =>
    have hnone : tokens = [] := by
      obtain ⟨t, own, rfl⟩ := List.exists_cons_of_ne_nil hsome
      rcases hgroup.shape with ⟨_, hshape⟩ | ⟨key, hkey, operand, hshape⟩
      · obtain ⟨_, htail⟩ := List.cons.inj hshape
        exact (List.append_eq_nil_iff.mp htail).2
      · obtain ⟨rfl, htail⟩ := List.cons.inj hshape
        cases own with
        | nil =>
          obtain ⟨f, hf⟩ := hkeys _ hkey
          have hread' := hread 0 []
          rw [List.append_nil, hf] at hread'
          cases hread'
        | cons _ own =>
          obtain ⟨_, htail⟩ := List.cons.inj htail
          exact (List.append_eq_nil_iff.mp htail).2
    obtain rfl := hnone
    obtain rfl := hmore.eq_nil rfl
    have hvalue : foldAll [value] = value := LawfulAccumulator.identity_append value
    rw [hvalue, List.append_nil]
    exact hread

theorem Bag.parse_nil (h : Bag parts) : (gather 0 parts).parse [] = .done identity :=
  h.parse_eq_done_iff.mpr ⟨[], .nil, Nat.le_refl 0, rfl⟩

/-- Token lists that are read one by one are read one after another. -/
theorem Bag.parse_flatten [LawfulAccumulator α] (h : Bag parts) {groups : List (List Token)}
    (hsome : groups ≠ []) {value : List Token → α}
    (hvalue : ∀ group ∈ groups, (gather minimum parts).parse group = .done (value group)) :
    (gather minimum parts).parse groups.flatten = .done (foldAll (groups.map value)) := by
  induction groups with
  | nil => exact absurd rfl hsome
  | cons group groups ih =>
    have hgroup := hvalue group List.mem_cons_self
    rw [List.flatten_cons, List.map_cons, foldAll_cons]
    by_cases hmore : groups = []
    · rw [hmore, List.flatten_nil, List.append_nil, List.map_nil, hgroup]
      exact congrArg _ (LawfulAccumulator.append_identity _).symm
    · refine h.joins _ _ _ _ hgroup (ih hmore fun g hg => ?_)
      exact hvalue g (List.mem_cons_of_mem _ hg)

/-- Options whose values commute are put together to the same value in every order. -/
theorem Bag.parse_perm [LawfulAccumulator α] (h : Bag parts) {keys : List Token}
    (hkeys : ∀ key ∈ keys, ∃ f, (oneOf parts).run ⟨0, [key]⟩ = .failed f)
    {groups groups' : List (List Token)} (hsome : groups ≠ []) (hperm : groups.Perm groups')
    (hgroups : ∀ group ∈ groups, (gather minimum parts).IsOption keys group)
    (hcommutes : ∀ group ∈ groups, ∀ group' ∈ groups, ∀ a b,
      (oneOf parts).Reads group a → (oneOf parts).Reads group' b → Commutes a b) :
    ∃ a, (gather minimum parts).parse groups.flatten = .done a ∧
      (gather minimum parts).parse groups'.flatten = .done a := by
  have : Nonempty α := ⟨identity⟩
  have haccepted : ∀ group ∈ groups, ∃ a, (gather minimum parts).parse group = .done a :=
    fun group hgroup => (hgroups group hgroup).accepted
  choose! value hvalue using haccepted
  have hreads : ∀ group ∈ groups, (oneOf parts).Reads group (value group) :=
    fun group hgroup => h.reads_of_isOption hkeys (hgroups group hgroup) (hvalue group hgroup)
  have hsome' : groups' ≠ [] := by
    rintro rfl
    exact hsome (List.perm_nil.mp hperm)
  have hfold : foldAll (groups.map value) = foldAll (groups'.map value) := by
    refine foldAll_perm (hperm.map value) fun a ha b hb => ?_
    obtain ⟨group, hgroup, rfl⟩ := List.mem_map.mp ha
    obtain ⟨group', hgroup', rfl⟩ := List.mem_map.mp hb
    exact hcommutes group hgroup group' hgroup' _ _ (hreads group hgroup) (hreads group' hgroup')
  refine ⟨_, h.parse_flatten hsome hvalue, ?_⟩
  rw [hfold]
  exact h.parse_flatten hsome' fun group hgroup => hvalue group (hperm.mem_iff.mpr hgroup)

/-- A bag in front of other tokens goes on with what these begin with. -/
theorem Bag.run_append [LawfulAccumulator α] (h : Bag parts) (hcomposed : (oneOf parts).Composed)
    {own rest : List Token} {a : α} (hown : (gather 0 parts).parse own = .done a) {n : Match α}
    (hn : (gather 0 parts).run (.start rest) = .done n) (position : Nat) :
    ∃ m, (gather 0 parts).run ⟨position, own ++ rest⟩ = .done m ∧
      m.value = append a n.value ∧ m.cursor.rest = n.cursor.rest := by
  have hplain : (oneOf parts).Plain := plain_oneOf h.plain h.excludes
  have hcollects := collects_gather 0 hplain
  obtain ⟨values, hgroups, _, rfl⟩ := h.parse_eq_done_iff.mp hown
  obtain ⟨more, values', hmore, hgroups', _, hvalue⟩ := hcollects.sound hn
  have hrest : rest = more ++ n.cursor.rest := hmore
  have hstops : ∃ f, (oneOf parts).run n.cursor = .failed f := by
    simp only [gather, scan] at hn
    cases hscan : scanFrom parts ⟨⟨identity, .start rest, none⟩, 0, none⟩ with
    | none =>
      rw [hscan] at hn
      cases hn
    | some s =>
      rw [hscan] at hn
      obtain rfl := Outcome.done.inj hn
      exact stops_of_scanFrom hplain (hplain.needsToken (steady_oneOf h.steady)) hscan
  have hstops' : ∃ f, (oneOf parts).run ⟨position + (own ++ more).length, n.cursor.rest⟩ =
      .failed f := hcomposed.failed_of_rest (c := n.cursor) rfl hstops
  obtain ⟨m, hm, hend, hfold⟩ :=
    hcollects.complete (hgroups.append hgroups') (Nat.zero_le _) hstops'
  refine ⟨m, ?_, ?_, hend⟩
  · rw [hrest, ← List.append_assoc]
    exact hm
  · rw [hfold, hvalue, foldAll_append]

/-- A bag may always be empty. -/
theorem Bag.exists_run (h : Bag parts) (c : Cursor) : ∃ m, (gather 0 parts).run c = .done m := by
  have hends := (steady_gather 0 h.steady).ends c
  simp only [gather] at hends ⊢
  cases hscan : scan parts c with
  | none =>
    rw [hscan] at hends
    exact absurd rfl hends
  | some s => exact ⟨_, rfl⟩

/-- Two bags with the same value are followed by the same tokens, and have the same value
together with what these begin with. -/
theorem Bag.run_eq_of_parse [LawfulAccumulator α] (h : Bag parts)
    (hcomposed : (oneOf parts).Composed) {own own' : List Token} {a : α}
    (hown : (gather 0 parts).parse own = .done a) (hown' : (gather 0 parts).parse own' = .done a)
    (position position' : Nat) (rest : List Token) :
    ∃ m m', (gather 0 parts).run ⟨position, own ++ rest⟩ = .done m ∧
      (gather 0 parts).run ⟨position', own' ++ rest⟩ = .done m' ∧
        m'.value = m.value ∧ m'.cursor.rest = m.cursor.rest := by
  obtain ⟨n, hn⟩ := h.exists_run (.start rest)
  obtain ⟨m, hm, hvalue, hrest⟩ := h.run_append hcomposed hown hn position
  obtain ⟨m', hm', hvalue', hrest'⟩ := h.run_append hcomposed hown' hn position'
  exact ⟨m, m', hm, hm', hvalue'.trans hvalue.symm, hrest'.trans hrest.symm⟩

/-- Options in another order are followed by the same tokens, and have the same value together
with what these begin with. -/
theorem Bag.run_perm [LawfulAccumulator α] (h : Bag parts) (hcomposed : (oneOf parts).Composed)
    {keys : List Token} (hkeys : ∀ key ∈ keys, ∃ f, (oneOf parts).run ⟨0, [key]⟩ = .failed f)
    {groups groups' : List (List Token)} (hperm : groups.Perm groups')
    (hgroups : ∀ group ∈ groups, (gather 0 parts).IsOption keys group)
    (hcommutes : ∀ group ∈ groups, ∀ group' ∈ groups, ∀ a b,
      (oneOf parts).Reads group a → (oneOf parts).Reads group' b → Commutes a b)
    (position position' : Nat) (rest : List Token) :
    ∃ m m', (gather 0 parts).run ⟨position, groups.flatten ++ rest⟩ = .done m ∧
      (gather 0 parts).run ⟨position', groups'.flatten ++ rest⟩ = .done m' ∧
        m'.value = m.value ∧ m'.cursor.rest = m.cursor.rest := by
  have hvalue : ∃ a, (gather 0 parts).parse groups.flatten = .done a ∧
      (gather 0 parts).parse groups'.flatten = .done a := by
    by_cases hsome : groups = []
    · subst hsome
      obtain rfl := List.nil_perm.mp hperm
      exact ⟨identity, h.parse_nil, h.parse_nil⟩
    · exact h.parse_perm hkeys hsome hperm hgroups hcommutes
  obtain ⟨a, ha, ha'⟩ := hvalue
  exact h.run_eq_of_parse hcomposed ha ha' position position' rest

end Gathering

end Parser

open SimControl.Parser

variable (fs : FileSystem)

/-! ## The options of the command language -/

theorem Configuration.marks_of_mem_settings {p : Parser Configuration} (hp : p ∈ settings fs) :
    p.Marks Configuration.deviceSet ["--set"] := by
  simp only [settings, List.mem_append, List.mem_map, List.mem_singleton] at hp
  rcases hp with (⟨q, _, rfl⟩ | ⟨q, _, rfl⟩) | rfl
  · exact marks_map q (fun _ => rfl) _
  · exact marks_map q (fun _ => rfl) _
  · refine HeadedBy.marks ?_ ((needsToken_keyword _ _).map _) _
    exact ((headedBy_keyword _ _).map _).mono fun t ht => by simp [ht]

/-- Settings are put together to the same configuration in every order, if at most one of them
is a set of simulators. -/
theorem Configuration.parse_perm {groups groups' : List (List Token)}
    (hgroups : ∀ group ∈ groups, (parser fs).IsOption ["--set"] group)
    (honce : AtMostOnce ["--set"] groups) (hperm : groups.Perm groups') :
    ∃ a, (parser fs).parse groups.flatten = .done a ∧
      (parser fs).parse groups'.flatten = .done a := by
  have hbag := bag_settings fs
  have hkeys : ∀ key ∈ ["--set"], ∃ f, (oneOf (settings fs)).run ⟨0, [key]⟩ = .failed f := by
    intro key hkey
    obtain rfl := List.mem_singleton.mp hkey
    exact ⟨_, rfl⟩
  by_cases hsome : groups = []
  · subst hsome
    obtain rfl := List.nil_perm.mp hperm
    exact ⟨identity, hbag.parse_nil, hbag.parse_nil⟩
  refine hbag.parse_perm hkeys hsome hperm hgroups fun group hmem group' hmem' a b ha hb => ?_
  rcases field_eq_none_of_atMostOnce (fun _ => marks_of_mem_settings fs) honce hmem hmem' ha hb
    with rfl | hset
  · rfl
  · exact Configuration.commutes hset

namespace TargetQuery

theorem marks_of_mem_criteria {p : Parser TargetQuery} (hp : p ∈ criteria) :
    p.Marks TargetQuery.first ["--first"] := by
  cases hp using criterion_cases with
  | first =>
    refine HeadedBy.marks ?_ ((needsToken_keyword _ _).map _) _
    exact (headedBy_firstParser.map _).mono fun t ht => by simp [ht]
  | udid | state | type | osVersion | device => exact marks_map _ (fun _ => rfl) _

/-- Criteria are put together to the same query in every order, if at most one of them bounds
the number of targets. -/
theorem optional_parse_perm {groups groups' : List (List Token)}
    (hgroups : ∀ group ∈ groups, parser.IsOption ["--first"] group ∧ group ≠ ["all"])
    (honce : AtMostOnce ["--first"] groups) (hperm : groups.Perm groups') :
    ∃ a, parser.optional.parse groups.flatten = .done a ∧
      parser.optional.parse groups'.flatten = .done a := by
  by_cases hsome : groups = []
  · subst hsome
    obtain rfl := List.nil_perm.mp hperm
    have hnone : parser.optional.parse [] = .done none :=
      parser_needsToken.optional_parse_eq_done_iff.mpr (.inl ⟨rfl, rfl⟩)
    exact ⟨none, hnone, hnone⟩
  have hkeys : ∀ key ∈ ["--first"], ∃ f, (oneOf criteria).run ⟨0, [key]⟩ = .failed f := by
    intro key hkey
    obtain rfl := List.mem_singleton.mp hkey
    exact ⟨_, rfl⟩
  have hcriteria : ∀ group ∈ groups, (gather 1 criteria).IsOption ["--first"] group ∧
      group.head? ≠ some "all" := fun group hmem =>
    (hgroups group hmem).1.of_described.of_oneOf_literal (hgroups group hmem).2
  obtain ⟨a, ha, ha'⟩ := bag_criteria.parse_perm hkeys hsome hperm
    (fun group hmem => (hcriteria group hmem).1) fun group hmem group' hmem' a b ha hb => by
      rcases field_eq_none_of_atMostOnce (fun _ => marks_of_mem_criteria) honce hmem hmem' ha hb
        with rfl | hfirst
      · rfl
      · exact TargetQuery.commutes hfirst
  have hparse {groups : List (List Token)} (hhead : ∀ group ∈ groups, group.head? ≠ some "all")
      (h : (gather 1 criteria).parse groups.flatten = .done a) :
      parser.optional.parse groups.flatten = .done (some a) := by
    refine parser_needsToken.optional_parse_eq_done_iff.mpr (.inr ⟨a, ?_, rfl⟩)
    exact oneOf_literal_parse_eq_done_iff.mpr (.inr ⟨head?_flatten_ne hhead, h⟩)
  refine ⟨some a, hparse (fun group hmem => (hcriteria group hmem).2) ha, hparse ?_ ha'⟩
  exact fun group hmem => (hcriteria group (hperm.mem_iff.mpr hmem)).2

end TargetQuery

/-! An interface and a creation are followed by other tokens, which may be options as well. -/

namespace ListenInterface

theorem marks_of_mem_sources {p : Parser ListenInterface} (hp : p ∈ sources) :
    p.Marks ListenInterface.socket ["--socket"] ∧ p.Marks ListenInterface.http ["--http"] := by
  have hword {text : Token} (q : Parser UInt16) (f : UInt16 → ListenInterface)
      (field : ListenInterface → Option UInt16) :
      ((keyword text q).map f).Marks field [text] := by
    refine HeadedBy.marks ?_ ((needsToken_keyword _ _).map _) _
    exact ((headedBy_keyword _ _).map _).mono fun t ht => by simp [ht]
  cases hp using source_cases with
  | stdin => exact ⟨marks_literal rfl _, marks_literal rfl _⟩
  | socket => exact ⟨hword _ _ _, marks_map _ (fun _ => rfl) _⟩
  | http => exact ⟨marks_map _ (fun _ => rfl) _, hword _ _ _⟩

theorem commutes_of_reads {groups : List (List Token)} (hsocket : AtMostOnce ["--socket"] groups)
    (hhttp : AtMostOnce ["--http"] groups) {group group' : List Token} (hmem : group ∈ groups)
    (hmem' : group' ∈ groups) {a b : ListenInterface} (ha : (oneOf sources).Reads group a)
    (hb : (oneOf sources).Reads group' b) : Accumulator.Commutes a b := by
  rcases field_eq_none_of_atMostOnce (fun _ hp => (marks_of_mem_sources hp).1) hsocket hmem hmem'
    ha hb with rfl | hnoSocket
  · rfl
  rcases field_eq_none_of_atMostOnce (fun _ hp => (marks_of_mem_sources hp).2) hhttp hmem hmem'
    ha hb with rfl | hnoHttp
  · rfl
  exact ListenInterface.commutes hnoSocket hnoHttp

/-- Sources are put together to the same interface in every order, if no port is given twice. -/
theorem run_perm {groups groups' : List (List Token)}
    (hgroups : ∀ group ∈ groups, parser.IsOption ["--socket", "--http"] group)
    (hsocket : AtMostOnce ["--socket"] groups) (hhttp : AtMostOnce ["--http"] groups)
    (hperm : groups.Perm groups') (position position' : Nat) (rest : List Token) :
    ∃ m m', parser.run ⟨position, groups.flatten ++ rest⟩ = .done m ∧
      parser.run ⟨position', groups'.flatten ++ rest⟩ = .done m' ∧
        m'.value = m.value ∧ m'.cursor.rest = m.cursor.rest := by
  have hkeys : ∀ key ∈ ["--socket", "--http"],
      ∃ f, (oneOf sources).run ⟨0, [key]⟩ = .failed f := by
    intro key hkey
    simp only [List.mem_cons, List.not_mem_nil, or_false] at hkey
    rcases hkey with rfl | rfl
    · exact ⟨_, rfl⟩
    · exact ⟨_, rfl⟩
  have hsources : ∀ group ∈ groups,
      (gather 0 sources).IsOption ["--socket", "--http"] group := by
    intro group hmem
    have hgroup := hgroups group hmem
    obtain ⟨a, ha⟩ := hgroup.accepted
    exact ⟨⟨a, (parse_eq_done_iff_gather hgroup.ne_nil).mp ha⟩, hgroup.shape⟩
  obtain ⟨m, m', hm, hm', hvalue, hrest⟩ := bag_sources.run_perm
    (.oneOf fun _ => composed_of_mem_sources) hkeys hperm hsources
      (fun _ hmem _ hmem' _ _ => commutes_of_reads hsocket hhttp hmem hmem') position position' rest
  refine ⟨m.map orStdin, m'.map orStdin, map_run_eq_done_iff.mpr ⟨m, hm, rfl⟩,
    map_run_eq_done_iff.mpr ⟨m', hm', rfl⟩, ?_, hrest⟩
  exact congrArg orStdin hvalue

end ListenInterface

namespace IndividualCreation

theorem marks_of_mem_properties {p : Parser IndividualCreation} (hp : p ∈ properties fs) :
    p.Marks IndividualCreation.model TargetQuery.deviceWords ∧
      p.Marks IndividualCreation.os TargetQuery.osVersionWords ∧
        p.Marks IndividualCreation.auxDirectory ["--aux"] := by
  cases hp using property_cases with
  | model =>
    refine ⟨?_, marks_map _ (fun _ => rfl) _, marks_map _ (fun _ => rfl) _⟩
    exact (TargetQuery.headedBy_deviceParser.map _).marks ((needsToken_single _ _).map _) _
  | os =>
    refine ⟨marks_map _ (fun _ => rfl) _, ?_, marks_map _ (fun _ => rfl) _⟩
    exact (TargetQuery.headedBy_osVersionParser.map _).marks ((needsToken_single _ _).map _) _
  | auxDirectory =>
    refine ⟨marks_map _ (fun _ => rfl) _, marks_map _ (fun _ => rfl) _, ?_⟩
    refine HeadedBy.marks ?_ ((needsToken_keyword _ _).map _) _
    exact ((headedBy_keyword _ _).map _).mono fun t ht => by simp [ht]

theorem commutes_of_reads {groups : List (List Token)}
    (hmodel : AtMostOnce TargetQuery.deviceWords groups)
    (hos : AtMostOnce TargetQuery.osVersionWords groups) (haux : AtMostOnce ["--aux"] groups)
    {group group' : List Token} (hmem : group ∈ groups) (hmem' : group' ∈ groups)
    {a b : IndividualCreation} (ha : (oneOf (properties fs)).Reads group a)
    (hb : (oneOf (properties fs)).Reads group' b) : Accumulator.Commutes a b := by
  rcases field_eq_none_of_atMostOnce (fun _ hp => (marks_of_mem_properties fs hp).1) hmodel hmem
    hmem' ha hb with rfl | hnoModel
  · rfl
  rcases field_eq_none_of_atMostOnce (fun _ hp => (marks_of_mem_properties fs hp).2.1) hos hmem
    hmem' ha hb with rfl | hnoOs
  · rfl
  rcases field_eq_none_of_atMostOnce (fun _ hp => (marks_of_mem_properties fs hp).2.2) haux hmem
    hmem' ha hb with rfl | hnoAux
  · rfl
  exact IndividualCreation.commutes hnoOs hnoModel hnoAux

end IndividualCreation

namespace CreationSpecification

/-- One simulator is created where no word stands for all of them. -/
theorem individual_run {c : Cursor} (hc : c.rest.head? ≠ some "--all-missing-defaults")
    {m : Match IndividualCreation}
    (hm : (gather 0 (IndividualCreation.properties fs)).run c = .done m) :
    (parser fs).run c = .done (m.map individual) :=
  oneOf_two_run_eq_done_iff.mpr
    (.inr ⟨literal_run_eq_failed_iff.mpr hc, map_run_eq_done_iff.mpr ⟨m, hm, rfl⟩⟩)

/-- Properties are put together to the same creation in every order, if none is given twice. -/
theorem run_perm {groups groups' : List (List Token)} (hsome : groups ≠ [])
    (hgroups : ∀ group ∈ groups,
      (parser fs).IsOption ["--aux"] group ∧ group ≠ ["--all-missing-defaults"])
    (hmodel : AtMostOnce TargetQuery.deviceWords groups)
    (hos : AtMostOnce TargetQuery.osVersionWords groups) (haux : AtMostOnce ["--aux"] groups)
    (hperm : groups.Perm groups') (position position' : Nat) (rest : List Token) :
    ∃ m m', (parser fs).run ⟨position, groups.flatten ++ rest⟩ = .done m ∧
      (parser fs).run ⟨position', groups'.flatten ++ rest⟩ = .done m' ∧
        m'.value = m.value ∧ m'.cursor.rest = m.cursor.rest := by
  have hkeys : ∀ key ∈ ["--aux"],
      ∃ f, (oneOf (IndividualCreation.properties fs)).run ⟨0, [key]⟩ = .failed f := by
    intro key hkey
    obtain rfl := List.mem_singleton.mp hkey
    exact ⟨_, rfl⟩
  have hproperties : ∀ group ∈ groups,
      (gather 0 (IndividualCreation.properties fs)).IsOption ["--aux"] group ∧
        group.head? ≠ some "--all-missing-defaults" := fun group hmem =>
    ((hgroups group hmem).1.of_oneOf_literal (hgroups group hmem).2).imp_left IsOption.of_map
  have hheads : ∀ group ∈ groups, group ≠ [] ∧ group.head? ≠ some "--all-missing-defaults" :=
    fun group hmem => ⟨(hproperties group hmem).1.ne_nil, (hproperties group hmem).2⟩
  have hheads' : ∀ group ∈ groups', group ≠ [] ∧ group.head? ≠ some "--all-missing-defaults" :=
    fun group hmem => hheads group (hperm.mem_iff.mpr hmem)
  have hsome' : groups' ≠ [] := by
    rintro rfl
    exact hsome (List.perm_nil.mp hperm)
  obtain ⟨m, m', hm, hm', hvalue, hrest⟩ := (IndividualCreation.bag_properties fs).run_perm
    (.oneOf fun _ => IndividualCreation.composed_of_mem_properties fs) hkeys hperm
      (fun group hmem => (hproperties group hmem).1)
        (fun _ hmem _ hmem' _ _ =>
          IndividualCreation.commutes_of_reads fs hmodel hos haux hmem hmem')
            position position' rest
  exact ⟨_, _, individual_run fs (head?_flatten_append_ne hsome hheads rest) hm,
    individual_run fs (head?_flatten_append_ne hsome' hheads' rest) hm',
      congrArg individual hvalue, hrest⟩

end CreationSpecification

end SimControl
