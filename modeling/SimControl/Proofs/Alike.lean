/-
Runs that differ in nothing that matters.

Two outcomes are alike at a distance `k` if they have the same value and the same tokens
ahead, and if every place that one of them names is `k` tokens further on in the other.
With `exact` the problems that they report are equal as well; without it, only their
places are compared.

All combinators keep parsers alike.  A parser alike to itself cannot tell where in a token
list it stands, which is `Composed.alike`, and parsers that are alike without `exact` differ
in the wording of their diagnostics only.
-/
import Mathlib.Data.List.Forall2
import SimControl.Proofs.Composed

namespace SimControl

/-- The same tokens ahead, with `k` more behind. -/
def Cursor.shift (k : Nat) (c : Cursor) : Cursor := ⟨c.position + k, c.rest⟩

theorem Cursor.rest_shift (k : Nat) (c : Cursor) : (c.shift k).rest = c.rest := rfl

namespace Failure

/-- `g` is at the place of `f`, `k` tokens further on. -/
structure Alike (exact : Prop) (k : Nat) (f g : Failure) : Prop where
  offset : g.offset = f.offset + k
  problem : exact → g.problem = f.problem

variable {exact : Prop} {k : Nat} {f f' g g' : Failure} {a a' b b' : Option Failure}

theorem alike_at {problem problem' : Problem} (h : exact → problem' = problem) (c : Cursor) :
    Alike exact k ⟨problem, c.position⟩ ⟨problem', (c.shift k).position⟩ := ⟨rfl, h⟩

theorem Alike.furthest (hf : Alike exact k f f') (hg : Alike exact k g g') :
    Alike exact k (f.furthest g) (f'.furthest g') := by
  unfold Failure.furthest
  by_cases h : f.offset < g.offset
  · have h' : f'.offset < g'.offset := by rw [hf.offset, hg.offset]; omega
    rw [if_pos h, if_pos h']
    exact hg
  · have h' : ¬ f'.offset < g'.offset := by rw [hf.offset, hg.offset]; omega
    rw [if_neg h, if_neg h']
    exact hf

theorem Alike.orRecovered (hf : Alike exact k f f') (hr : a.Rel (Alike exact k) a') :
    Alike exact k (f.orRecovered a) (f'.orRecovered a') := by
  cases hr with
  | none => exact hf
  | some hg => exact hf.furthest hg

theorem alike_deepest (ha : a.Rel (Alike exact k) a') (hb : b.Rel (Alike exact k) b') :
    (deepest a b).Rel (Alike exact k) (deepest a' b') := by
  cases ha with
  | none => exact hb
  | some hf =>
    cases hb with
    | none => exact .some hf
    | some hg => exact .some (hf.furthest hg)

end Failure

/-- `n` is the match `m`, with every place `k` tokens further on. -/
structure Match.Alike {α : Type} (exact : Prop) (k : Nat) (m n : Match α) : Prop where
  value : n.value = m.value
  cursor : n.cursor = m.cursor.shift k
  recovered : m.recovered.Rel (Failure.Alike exact k) n.recovered

namespace Match.Alike

variable {α β γ : Type} {exact : Prop} {k : Nat}

theorem rest {m n : Match α} (h : m.Alike exact k n) : n.cursor.rest = m.cursor.rest := by
  rw [h.cursor, Cursor.rest_shift]

theorem start (value : α) (c : Cursor) :
    (⟨value, c, none⟩ : Match α).Alike exact k ⟨value, c.shift k, none⟩ := ⟨rfl, rfl, .none⟩

theorem map {m n : Match α} (h : m.Alike exact k n) (f : α → β) :
    (m.map f).Alike exact k (n.map f) := ⟨congrArg f h.value, h.cursor, h.recovered⟩

theorem recovering {m n : Match α} {a b : Option Failure} (h : m.Alike exact k n)
    (hr : a.Rel (Failure.Alike exact k) b) :
    (m.recovering a).Alike exact k (n.recovering b) :=
  ⟨h.value, h.cursor, Failure.alike_deepest h.recovered hr⟩

theorem andThen {m m' : Match α} {n n' : Match β} (hm : m.Alike exact k m')
    (hn : n.Alike exact k n') (f : α → β → γ) :
    (m.andThen n f).Alike exact k (m'.andThen n' f) where
  value := by
    show f m'.value n'.value = f m.value n.value
    rw [hm.value, hn.value]
  cursor := hn.cursor
  recovered := Failure.alike_deepest hm.recovered hn.recovered

end Match.Alike

/-- Both runs end in the same way, with results in `R` or with failures alike, or neither
of them ends. -/
inductive Outcome.Alike {α β : Type} (exact : Prop) (k : Nat) (R : α → β → Prop) :
    Outcome α → Outcome β → Prop
  | done {a : α} {b : β} (h : R a b) : Alike exact k R (.done a) (.done b)
  | failed {f g : Failure} (h : f.Alike exact k g) : Alike exact k R (.failed f) (.failed g)
  | endless : Alike exact k R .endless .endless

theorem Outcome.Alike.bind {α β γ δ : Type} {exact : Prop} {k : Nat} {R : α → β → Prop}
    {S : γ → δ → Prop} {o : Outcome α} {o' : Outcome β} {f : α → Outcome γ} {f' : β → Outcome δ}
    (ho : o.Alike exact k R o') (hf : ∀ a b, R a b → (f a).Alike exact k S (f' b)) :
    (o.bind f).Alike exact k S (o'.bind f') := by
  cases ho with
  | done h => exact hf _ _ h
  | failed h => exact .failed h
  | endless => exact .endless

namespace Parser

variable {α β γ : Type} {exact : Prop}

/-- The runs of `p` and `q` in front of the same tokens are alike at every distance. -/
structure Alike (exact : Prop) (p q : Parser α) : Prop where
  description : exact → q.description = p.description
  run (k : Nat) (c : Cursor) :
    (p.run c).Alike exact k (Match.Alike exact k) (q.run (c.shift k))

/-- Both convert to the same value or both refuse. -/
inductive AlikeReading (exact : Prop) : Except Problem α → Except Problem α → Prop
  | ok (value : α) : AlikeReading exact (.ok value) (.ok value)
  | error {problem problem' : Problem} (h : exact → problem' = problem) :
      AlikeReading exact (.error problem) (.error problem')

theorem AlikeReading.refl (r : Except Problem α) : AlikeReading exact r r := by
  cases r with
  | ok value => exact .ok value
  | error problem => exact .error fun _ => rfl

section Continuing

variable {p q : Parser α} {k : Nat} {m n : Match β}

theorem Alike.run_at (hp : p.Alike exact q) (hm : m.Alike exact k n) :
    (p.run m.cursor).Alike exact k (Match.Alike exact k) (q.run n.cursor) := by
  rw [hm.cursor]
  exact hp.run k m.cursor

theorem Alike.done (hp : p.Alike exact q) (hm : m.Alike exact k n) {next : Match α}
    (h : p.run m.cursor = .done next) :
    ∃ next', q.run n.cursor = .done next' ∧ next.Alike exact k next' := by
  have hrun := hp.run_at hm
  rw [h] at hrun
  generalize q.run n.cursor = o at hrun ⊢
  cases hrun with
  | done hnext => exact ⟨_, rfl, hnext⟩

theorem Alike.failed (hp : p.Alike exact q) (hm : m.Alike exact k n) {failure : Failure}
    (h : p.run m.cursor = .failed failure) :
    ∃ failure', q.run n.cursor = .failed failure' ∧ failure.Alike exact k failure' := by
  have hrun := hp.run_at hm
  rw [h] at hrun
  generalize q.run n.cursor = o at hrun ⊢
  cases hrun with
  | failed hf => exact ⟨_, rfl, hf⟩

theorem Alike.endless (hp : p.Alike exact q) (hm : m.Alike exact k n)
    (h : p.run m.cursor = .endless) : q.run n.cursor = .endless := by
  have hrun := hp.run_at hm
  rw [h] at hrun
  generalize q.run n.cursor = o at hrun ⊢
  cases hrun
  rfl

end Continuing

/-! ## Single parsers -/

theorem alike_single {description description' : String} {read read' : Token → Except Problem α}
    (hd : exact → description' = description)
    (hread : ∀ token, AlikeReading exact (read token) (read' token)) :
    (single description read).Alike exact (single description' read') where
  description := hd
  run k c := by
    obtain ⟨position, rest⟩ := c
    cases rest with
    | nil => exact .failed ⟨rfl, fun h => by rw [hd h]⟩
    | cons token rest =>
      have htoken := hread token
      simp only [single, Cursor.shift]
      generalize read token = r, read' token = r' at htoken
      cases htoken with
      | ok value => exact .done ⟨rfl, congrArg (Cursor.mk · rest) (Nat.add_right_comm ..), .none⟩
      | error h => exact .failed ⟨rfl, h⟩

theorem alike_succeed (value : α) : (succeed value).Alike exact (succeed value) :=
  ⟨fun _ => rfl, fun _ c => .done (.start value c)⟩

theorem alike_fail {problem problem' : Problem} (h : exact → problem' = problem) :
    (fail problem : Parser α).Alike exact (fail problem') :=
  ⟨fun he => congrArg Problem.message (h he), fun _ _ => .failed ⟨rfl, h⟩⟩

theorem Alike.described {p q : Parser α} (hp : p.Alike exact q) {description description' : String}
    (h : exact → description' = description) :
    (p.described description).Alike exact (q.described description') := ⟨h, hp.run⟩

theorem Alike.map {p q : Parser α} (hp : p.Alike exact q) (f : α → β) :
    (p.map f).Alike exact (q.map f) where
  description := hp.description
  run k c := (hp.run k c).bind fun _ _ h => .done (h.map f)

theorem Alike.refine {p q : Parser α} (hp : p.Alike exact q) {f g : α → Except Problem β}
    (hf : ∀ a, AlikeReading exact (f a) (g a)) : (p.refine f).Alike exact (q.refine g) where
  description := hp.description
  run k c := by
    refine (hp.run k c).bind fun m n h => ?_
    have hvalue := hf m.value
    rw [h.value]
    generalize f m.value = r, g m.value = r' at hvalue
    cases hvalue with
    | ok value => exact .done ⟨rfl, h.cursor, h.recovered⟩
    | error he => exact .failed ((Failure.alike_at he c).orRecovered h.recovered)

theorem Alike.withDefault {p q : Parser α} (hp : p.Alike exact q) (default : α) :
    (p.withDefault default).Alike exact (q.withDefault default) where
  description h := by simp only [Parser.withDefault, hp.description h]
  run k c := by
    have hrun := hp.run k c
    simp only [Parser.withDefault]
    generalize p.run c = o, q.run (c.shift k) = o' at hrun
    cases hrun with
    | done h => exact .done h
    | failed h => exact .done ⟨rfl, rfl, .some h⟩
    | endless => exact .endless

theorem alike_exhausted {k : Nat} {m n : Match α} (h : m.Alike exact k n) :
    m.exhausted.Alike exact k (Match.Alike exact k) n.exhausted := by
  have hleft : Failure.Alike exact k ⟨.leftover m.cursor.rest, m.cursor.position⟩
      ⟨.leftover n.cursor.rest, n.cursor.position⟩ := by
    rw [h.rest, h.cursor]
    exact Failure.alike_at (fun _ => rfl) m.cursor
  unfold Match.exhausted
  rw [h.rest]
  by_cases hend : m.cursor.rest = []
  · rw [if_pos hend, if_pos hend]
    exact .done h
  · rw [if_neg hend, if_neg hend]
    have hr := h.recovered
    generalize m.recovered = a, n.recovered = b at hr
    cases hr with
    | none =>
      rw [h.rest] at hleft
      exact .failed hleft
    | @some f g hf =>
      have hposition : n.cursor.position = m.cursor.position + k := by rw [h.cursor]; rfl
      rw [h.rest] at hleft
      simp only [hposition, hf.offset, Nat.add_le_add_iff_right]
      rw [hposition] at hleft
      split
      · exact .failed hf
      · exact .failed hleft

theorem Alike.exhaustive {p q : Parser α} (hp : p.Alike exact q) :
    p.exhaustive.Alike exact q.exhaustive :=
  ⟨hp.description, fun k c => (hp.run k c).bind fun _ _ h => alike_exhausted h⟩

/-! ## Choice -/

/-- One pass over branches alike takes the same branch, or misses at the same places. -/
inductive AlikeAttempt (exact : Prop) (k : Nat) : Attempt α → Attempt α → Prop
  | hit {m n : Match α} {a b : Option Failure} (h : m.Alike exact k n)
      (hr : a.Rel (Failure.Alike exact k) b) : AlikeAttempt exact k (.hit m a) (.hit n b)
  | miss {a b : Option Failure} (hr : a.Rel (Failure.Alike exact k) b) :
      AlikeAttempt exact k (.miss a) (.miss b)
  | endless : AlikeAttempt exact k .endless .endless

theorem alike_attempt {branches branches' : List (Parser α)}
    (hp : List.Forall₂ (Alike exact) branches branches') {k : Nat} (c : Cursor)
    {a b : Option Failure} (hr : a.Rel (Failure.Alike exact k) b) :
    AlikeAttempt exact k (attempt branches c a) (attempt branches' (c.shift k) b) := by
  induction hp generalizing a b with
  | nil => exact .miss hr
  | @cons p q branches branches' hpq _ ih =>
    have hrun := hpq.run k c
    rw [attempt, attempt]
    generalize p.run c = o, q.run (c.shift k) = o' at hrun
    cases hrun with
    | done h => exact .hit h hr
    | failed h => exact ih (Failure.alike_deepest hr (.some h))
    | endless => exact .endless

theorem map_description_eq {branches branches' : List (Parser α)}
    (hp : List.Forall₂ (Alike exact) branches branches') (h : exact) :
    branches'.map Parser.description = branches.map Parser.description := by
  induction hp with
  | nil => rfl
  | cons hpq _ ih => rw [List.map_cons, List.map_cons, hpq.description h, ih]

theorem alike_oneOf {branches branches' : List (Parser α)}
    (hp : List.Forall₂ (Alike exact) branches branches') :
    (oneOf branches).Alike exact (oneOf branches') where
  description h := congrArg (" | ".intercalate ·) (map_description_eq hp h)
  run k c := by
    have hpass := alike_attempt hp c (Option.Rel.none (r := Failure.Alike exact k))
    simp only [oneOf]
    generalize attempt branches c none = x, attempt branches' (c.shift k) none = x' at hpass
    cases hpass with
    | hit h _ => exact .done h
    | endless => exact .endless
    | miss hr =>
      cases hr with
      | some h => exact .failed h
      | none => exact .failed ⟨rfl, fun h => by rw [map_description_eq hp h]; rfl⟩

/-! ## Sequences -/

theorem alike_continueWith {q q' : Parser β} (hq : q.Alike exact q') {k : Nat} {m n : Match α}
    (hm : m.Alike exact k n) (f : α → β → γ) :
    (continueWith m q f).Alike exact k (Match.Alike exact k) (continueWith n q' f) := by
  have hrun := hq.run_at hm
  unfold continueWith
  generalize q.run m.cursor = o, q'.run n.cursor = o' at hrun
  cases hrun with
  | done h => exact .done (hm.andThen h f)
  | failed h => exact .failed (h.orRecovered hm.recovered)
  | endless => exact .endless

theorem Alike.pair {p p' : Parser α} {q q' : Parser β} (hp : p.Alike exact p')
    (hq : q.Alike exact q') : (p.pair q).Alike exact (p'.pair q') where
  description h := by
    simp only [Parser.pair, hp.description h, hq.description h]
  run k c := (hp.run k c).bind fun _ _ h => alike_continueWith hq h Prod.mk

theorem alike_sequenceFrom {parts parts' : List (Parser α)}
    (hp : List.Forall₂ (Alike exact) parts parts') {k : Nat} {m n : Match (List α)}
    (hm : m.Alike exact k n) :
    (sequenceFrom m parts).Alike exact k (Match.Alike exact k) (sequenceFrom n parts') := by
  induction hp generalizing m n with
  | nil => exact .done hm
  | cons hpq _ ih => exact (alike_continueWith hpq hm _).bind fun _ _ h => ih h

theorem alike_sequence {parts parts' : List (Parser α)}
    (hp : List.Forall₂ (Alike exact) parts parts') :
    (sequence parts).Alike exact (sequence parts') where
  description h := congrArg (" ".intercalate ·) (map_description_eq hp h)
  run _ c := alike_sequenceFrom hp (.start [] c)

/-! ## Repetitions -/

theorem Alike.tooFew {p q : Parser α} (hp : p.Alike exact q) (provided expected : Nat) {k : Nat}
    {m n : Match β} (hm : m.Alike exact k n) :
    (p.tooFew provided expected m.cursor).Alike exact k
      (q.tooFew provided expected n.cursor) := by
  rw [hm.cursor]
  exact Failure.alike_at (fun h => by rw [hp.description h]) m.cursor

theorem alike_push {k : Nat} {m n : Match (List α)} {next next' : Match α}
    (hm : m.Alike exact k n) (hnext : next.Alike exact k next') :
    (m.push next).Alike exact k (n.push next') := hm.andThen hnext _

theorem alike_repeatFrom {p q : Parser α} (hp : p.Alike exact q) (minimum : Nat) {k : Nat}
    {m n : Match (List α)} (hm : m.Alike exact k n) :
    (repeatFrom minimum p m).Alike exact k (Match.Alike exact k) (repeatFrom minimum q n) := by
  have hunfold := repeatFrom.eq_def minimum q
  fun_induction repeatFrom minimum p m generalizing n with
  | case1 m h =>
    rw [hunfold n, hp.endless hm h]
    exact .endless
  | case2 m failure h hfew =>
    obtain ⟨failure', hq, hf⟩ := hp.failed hm h
    rw [hunfold n, hq, hm.value]
    simp only [if_pos hfew]
    exact .failed (hf.orRecovered hm.recovered)
  | case3 m failure h hfew =>
    obtain ⟨failure', hq, hf⟩ := hp.failed hm h
    rw [hunfold n, hq, hm.value]
    simp only [if_neg hfew]
    exact .done (hm.recovering (.some hf))
  | case4 m next h hless ih =>
    obtain ⟨next', hq, hnext⟩ := hp.done hm h
    rw [hunfold n, hq]
    simp only [hnext.rest, hm.rest, if_pos hless]
    exact ih (alike_push hm hnext)
  | case5 m next h hless hfew =>
    obtain ⟨next', hq, hnext⟩ := hp.done hm h
    have hpush := alike_push hm hnext
    rw [hunfold n, hq]
    simp only [hnext.rest, hm.rest, if_neg hless, hpush.value, if_pos hfew]
    exact .failed ((hp.tooFew _ _ hnext).orRecovered hpush.recovered)
  | case6 m next h hless hfew =>
    obtain ⟨next', hq, hnext⟩ := hp.done hm h
    have hpush := alike_push hm hnext
    rw [hunfold n, hq]
    simp only [hnext.rest, hm.rest, if_neg hless, hpush.value, if_neg hfew]
    exact .done hpush

theorem Alike.atLeast (minimum : Nat) {p q : Parser α} (hp : p.Alike exact q) :
    (atLeast minimum p).Alike exact (atLeast minimum q) where
  description h := by simp only [Parser.atLeast, hp.description h]
  run _ c := alike_repeatFrom hp minimum (.start [] c)

/-- What a separated repetition has read, and the failure of the item that stopped it. -/
def AlikeStop (exact : Prop) (k : Nat) (x y : Match (List α) × Option Failure) : Prop :=
  x.1.Alike exact k y.1 ∧ x.2.Rel (Failure.Alike exact k) y.2

theorem alike_separatedFrom {p q : Parser α} {s t : Parser β} (hp : p.Alike exact q)
    (hs : s.Alike exact t) {k : Nat} {m n : Match (List α)} (hm : m.Alike exact k n) :
    (separatedFrom p s m).Alike exact k (AlikeStop exact k) (separatedFrom q t n) := by
  have hunfold := separatedFrom.eq_def q t
  fun_induction separatedFrom p s m generalizing n with
  | case1 m h =>
    rw [hunfold n, hs.endless hm h]
    exact .endless
  | case2 m failure h =>
    obtain ⟨failure', ht, _⟩ := hs.failed hm h
    rw [hunfold n, ht]
    exact .done ⟨hm, .none⟩
  | case3 m between hbetween h =>
    obtain ⟨between', ht, hbetween'⟩ := hs.done hm hbetween
    rw [hunfold n, ht]
    simp only [hp.endless hbetween' h]
    exact .endless
  | case4 m between hbetween failure h =>
    obtain ⟨between', ht, hbetween'⟩ := hs.done hm hbetween
    obtain ⟨failure', hq, hf⟩ := hp.failed hbetween' h
    rw [hunfold n, ht]
    simp only [hq]
    exact .done ⟨hm, .some hf⟩
  | case5 m between hbetween next h hless ih =>
    obtain ⟨between', ht, hbetween'⟩ := hs.done hm hbetween
    obtain ⟨next', hq, hnext⟩ := hp.done hbetween' h
    rw [hunfold n, ht]
    simp only [hq, hnext.rest, hm.rest, if_pos hless]
    exact ih (alike_push hm hnext)
  | case6 m between hbetween next h hless =>
    obtain ⟨between', ht, hbetween'⟩ := hs.done hm hbetween
    obtain ⟨next', hq, hnext⟩ := hp.done hbetween' h
    rw [hunfold n, ht]
    simp only [hq, hnext.rest, hm.rest, if_neg hless]
    exact .endless

theorem alike_separated (minimum : Nat) {p q : Parser α} {s t : Parser β} (hp : p.Alike exact q)
    (hs : s.Alike exact t) : (separated minimum p s).Alike exact (separated minimum q t) where
  description h := by simp only [separated, hp.description h, hs.description h]
  run k c := by
    have hrun := hp.run k c
    simp only [separated]
    generalize p.run c = o, q.run (c.shift k) = o' at hrun
    cases hrun with
    | endless => exact .endless
    | failed hf =>
      by_cases hzero : minimum = 0
      · simp only [hzero, if_true]
        exact .done ⟨rfl, rfl, .some hf⟩
      · simp only [hzero, if_false]
        exact .failed hf
    | done hfirst =>
      refine (alike_separatedFrom hp hs (hfirst.map ([·]))).bind fun x y h => ?_
      obtain ⟨m, a⟩ := x
      obtain ⟨n, b⟩ := y
      obtain ⟨hm, hr⟩ := h
      have hvalue : n.value = m.value := hm.value
      simp only [hvalue]
      by_cases hfew : m.value.length < minimum
      · simp only [if_pos hfew]
        refine .failed (Failure.Alike.orRecovered ?_ hm.recovered)
        cases hr with
        | none => exact hp.tooFew _ _ hm
        | some hf => exact hf
      · simp only [if_neg hfew]
        exact .done (hm.recovering hr)

theorem alike_upToFrom {s t : Parser β} {p q : Parser α} (hs : s.Alike exact t)
    (hp : p.Alike exact q) {k : Nat} {m n : Match (List α)} (hm : m.Alike exact k n) :
    (upToFrom s p m).Alike exact k (Match.Alike exact k) (upToFrom t q n) := by
  have hunfold := upToFrom.eq_def t q
  fun_induction upToFrom s p m generalizing n with
  | case1 m hend =>
    rw [hunfold n, hm.rest, if_pos hend]
    exact .done hm
  | case2 m hrest h =>
    rw [hunfold n, hm.rest, if_neg hrest, hs.endless hm h]
    exact .endless
  | case3 m hrest stopped h =>
    obtain ⟨stopped', ht, _⟩ := hs.done hm h
    rw [hunfold n, hm.rest, if_neg hrest, ht]
    exact .done hm
  | case4 m hrest stop hstop h =>
    obtain ⟨stop', ht, _⟩ := hs.failed hm hstop
    rw [hunfold n, hm.rest, if_neg hrest, ht]
    simp only [hp.endless hm h]
    exact .endless
  | case5 m hrest stop hstop failure h =>
    obtain ⟨stop', ht, _⟩ := hs.failed hm hstop
    obtain ⟨failure', hq, hf⟩ := hp.failed hm h
    rw [hunfold n, hm.rest, if_neg hrest, ht]
    simp only [hq]
    exact .failed (hf.orRecovered hm.recovered)
  | case6 m hrest stop hstop next h hless ih =>
    obtain ⟨stop', ht, _⟩ := hs.failed hm hstop
    obtain ⟨next', hq, hnext⟩ := hp.done hm h
    rw [hunfold n, hm.rest, if_neg hrest, ht]
    simp only [hq, hnext.rest, if_pos hless]
    exact ih (alike_push hm hnext)
  | case7 m hrest stop hstop next h hless =>
    obtain ⟨stop', ht, _⟩ := hs.failed hm hstop
    obtain ⟨next', hq, hnext⟩ := hp.done hm h
    rw [hunfold n, hm.rest, if_neg hrest, ht]
    simp only [hq, hnext.rest, if_neg hless]
    exact .done (alike_push hm hnext)

theorem alike_upTo {s t : Parser β} {p q : Parser α} (hs : s.Alike exact t)
    (hp : p.Alike exact q) : (upTo s p).Alike exact (upTo t q) where
  description h := by simp only [upTo, hp.description h, hs.description h]
  run _ c := alike_upToFrom hs hp (.start [] c)

/-! ## Gathering -/

structure AlikeScan (exact : Prop) (k : Nat) (s t : Scan α) : Prop where
  found : s.found.Alike exact k t.found
  count : t.count = s.count
  missed : s.missed.Rel (Failure.Alike exact k) t.missed

theorem alike_scanFrom [Accumulator α] {parts parts' : List (Parser α)}
    (hp : List.Forall₂ (Alike exact) parts parts') {k : Nat} {s t : Scan α}
    (hs : AlikeScan exact k s t) :
    (scanFrom parts s).Rel (AlikeScan exact k) (scanFrom parts' t) := by
  have hunfold := scanFrom.eq_def parts'
  have hround {s t : Scan α} (hs : AlikeScan exact k s t) :
      AlikeAttempt exact k (attempt parts s.found.cursor none)
        (attempt parts' t.found.cursor none) := by
    rw [hs.found.cursor]
    exact alike_attempt hp _ .none
  fun_induction scanFrom parts s generalizing t with
  | case1 s hend =>
    rw [hunfold t, hs.found.rest, if_pos hend]
    exact .some hs
  | case2 s hrest h =>
    have hpass := hround hs
    rw [hunfold t, hs.found.rest, if_neg hrest]
    rw [h] at hpass
    generalize attempt parts' t.found.cursor none = x at hpass ⊢
    cases hpass
    exact .none
  | case3 s hrest missed h =>
    have hpass := hround hs
    rw [hunfold t, hs.found.rest, if_neg hrest]
    rw [h] at hpass
    generalize attempt parts' t.found.cursor none = x at hpass ⊢
    cases hpass with
    | miss hr => exact .some ⟨hs.found, hs.count, hr⟩
  | case4 s hrest next missed h found hless =>
    rename_i ih
    have hpass := hround hs
    rw [hunfold t, hs.found.rest, if_neg hrest]
    rw [h] at hpass
    generalize attempt parts' t.found.cursor none = x at hpass ⊢
    cases hpass with
    | hit hnext hr =>
      simp only [hnext.rest, if_pos hless, hs.count]
      exact ih ⟨hs.found.andThen hnext _, rfl, hr⟩
  | case5 s hrest next missed h found =>
    rename_i hless
    have hpass := hround hs
    rw [hunfold t, hs.found.rest, if_neg hrest]
    rw [h] at hpass
    generalize attempt parts' t.found.cursor none = x at hpass ⊢
    cases hpass with
    | hit hnext hr =>
      simp only [hnext.rest, if_neg hless, hs.count]
      exact .some ⟨hs.found.andThen hnext _, rfl, hr⟩

theorem alike_gather [Accumulator α] (minimum : Nat) {parts parts' : List (Parser α)}
    (hp : List.Forall₂ (Alike exact) parts parts') :
    (gather minimum parts).Alike exact (gather minimum parts') where
  description h := by simp only [gather, map_description_eq hp h]
  run k c := by
    have hstart : AlikeScan exact k ⟨⟨(Accumulator.identity : α), c, none⟩, 0, none⟩
        ⟨⟨Accumulator.identity, c.shift k, none⟩, 0, none⟩ := ⟨.start _ c, rfl, .none⟩
    have hscan := alike_scanFrom hp hstart
    simp only [gather, scan]
    generalize scanFrom parts ⟨⟨Accumulator.identity, c, none⟩, 0, none⟩ = x,
      scanFrom parts' ⟨⟨Accumulator.identity, c.shift k, none⟩, 0, none⟩ = y at hscan
    cases hscan with
    | none => exact .endless
    | @some s t hs =>
      simp only [hs.count]
      by_cases hfew : s.count < minimum
      · simp only [if_pos hfew]
        refine .failed (Failure.Alike.orRecovered ?_ hs.found.recovered)
        have hr := hs.missed
        generalize s.missed = a, t.missed = b at hr
        cases hr with
        | some hf => exact hf
        | none =>
          rw [hs.found.cursor]
          exact Failure.alike_at (fun h => by rw [map_description_eq hp h]; rfl) _
      · simp only [if_neg hfew]
        exact .done (hs.found.recovering hs.missed)

/-! ## All composed parsers -/

/-- A composed parser does the same wherever it is started, if the tokens ahead are the
same. -/
theorem Composed.alike {p : Parser α} (hp : p.Composed) (exact : Prop) : p.Alike exact p := by
  induction hp with
  | single description read => exact alike_single (fun _ => rfl) fun _ => .refl _
  | succeed value => exact alike_succeed value
  | fail problem => exact alike_fail fun _ => rfl
  | described _ _ ih => exact ih.described fun _ => rfl
  | map _ f ih => exact ih.map f
  | refine _ f ih => exact ih.refine fun _ => .refl _
  | withDefault _ default ih => exact ih.withDefault default
  | exhaustive _ ih => exact ih.exhaustive
  | oneOf _ ih => exact alike_oneOf (List.forall₂_same.mpr ih)
  | pair _ _ ihp ihq => exact ihp.pair ihq
  | sequence _ ih => exact alike_sequence (List.forall₂_same.mpr ih)
  | atLeast minimum _ ih => exact ih.atLeast minimum
  | separated minimum _ _ ihp ihs => exact alike_separated minimum ihp ihs
  | upTo _ _ ihs ihp => exact alike_upTo ihs ihp
  | gather minimum _ ih => exact alike_gather minimum (List.forall₂_same.mpr ih)

/-- A run is like the run over the tokens ahead alone. -/
theorem Composed.alike_start {p : Parser α} (hp : p.Composed) (c : Cursor) :
    (p.run (.start c.rest)).Alike True c.position (Match.Alike True c.position) (p.run c) := by
  have hrun := (hp.alike True).run c.position (.start c.rest)
  have hshift : (Cursor.start c.rest).shift c.position = c :=
    congrArg (Cursor.mk · c.rest) (Nat.zero_add c.position)
  rw [hshift] at hrun
  exact hrun

/-- A match is found wherever the same tokens are ahead. -/
theorem Composed.done_of_rest {p : Parser α} (hp : p.Composed) {c d : Cursor}
    (h : d.rest = c.rest) {m : Match α} (hm : p.run c = .done m) :
    ∃ n, p.run d = .done n ∧ n.value = m.value ∧ n.cursor.rest = m.cursor.rest := by
  have hc := hp.alike_start c
  have hd := hp.alike_start d
  rw [hm] at hc
  rw [h] at hd
  generalize p.run (.start c.rest) = o, p.run d = o' at hc hd ⊢
  cases hc with
  | done hm =>
    cases hd with
    | done hn => exact ⟨_, rfl, hn.value.trans hm.value.symm, hn.rest.trans hm.rest.symm⟩

/-- A parser fails wherever the same tokens are ahead. -/
theorem Composed.failed_of_rest {p : Parser α} (hp : p.Composed) {c d : Cursor}
    (h : d.rest = c.rest) (hf : ∃ f, p.run c = .failed f) : ∃ f, p.run d = .failed f := by
  obtain ⟨f, hf⟩ := hf
  have hc := hp.alike_start c
  have hd := hp.alike_start d
  rw [hf] at hc
  rw [h] at hd
  generalize p.run (.start c.rest) = o, p.run d = o' at hc hd ⊢
  cases hc with
  | failed _ =>
    cases hd with
    | failed _ => exact ⟨_, rfl⟩

/-- Where the tokens stand has no part in whether a parser reads all of them. -/
theorem Composed.parse_eq_done_iff_run {p : Parser α} (hp : p.Composed) (position : Nat)
    {tokens : List Token} {value : α} :
    p.parse tokens = .done value ↔
      ∃ m, p.run ⟨position, tokens⟩ = .done m ∧ m.cursor.rest = [] ∧ m.value = value := by
  have hrun : (p.run (.start tokens)).Alike True position (Match.Alike True position)
    (p.run ⟨position, tokens⟩) := hp.alike_start ⟨position, tokens⟩
  rw [Parser.parse_eq_done_iff]
  generalize p.run (.start tokens) = o, p.run ⟨position, tokens⟩ = o' at hrun ⊢
  cases hrun with
  | done h =>
    simp only [Outcome.done.injEq, exists_eq_left', h.rest, h.value]
  | failed _ => simp
  | endless => simp

end Parser
end SimControl
