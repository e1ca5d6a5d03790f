import Mathlib.Data.List.Basic
import Mathlib.Data.List.Induction

/-!
# `Lib.Lifecycle` — set up once, then enter and leave any number of times

The protocol of a client that is set up once and then goes through sessions. Many clients share one list of
events; `move e` says which move of *this* client an event is (`none` when it is somebody else's), so
`Follows move l` says that this client keeps to the protocol, whatever the others do in between.
-/

namespace Lifecycle

variable {ι : Type}

/-- A move of the client. -/
inductive Move where
  | setUp
  | enter
  | leave
  deriving DecidableEq

/-- Where the client stands. -/
inductive Phase where
  | fresh
  | idle
  | active
  deriving DecidableEq

/-- The protocol; `none` is a move out of order. -/
def Phase.next : Phase → Move → Option Phase
  | .fresh, .setUp => some .idle
  | .idle, .enter => some .active
  | .active, .leave => some .idle
  | _, _ => none

/-- An event moves the client on, or passes it by. -/
def Phase.after (move : ι → Option Move) (p : Phase) (e : ι) : Option Phase :=
  match move e with
  | none => some p
  | some m => p.next m

/-- Where the client stands after the events `l`. -/
def phase (move : ι → Option Move) (l : List ι) : Option Phase := l.foldlM (Phase.after move) .fresh

/-- The client keeps to the protocol. -/
def Follows (move : ι → Option Move) (l : List ι) : Prop := (phase move l).isSome = true

instance (move : ι → Option Move) (l : List ι) : Decidable (Follows move l) :=
  inferInstanceAs (Decidable (_ = true))

variable {move : ι → Option Move}

theorem phase_concat (l : List ι) (e : ι) :
    phase move (l ++ [e]) = (phase move l).bind (fun p => p.after move e) := by
  unfold phase
  rw [List.foldlM_append]
  cases l.foldlM (Phase.after move) Phase.fresh with
  | none => rfl
  | some p => simp

/-- A client whose moves are read off other events. -/
theorem phase_filterMap {κ : Type} {move' : κ → Option Move} {φ : κ → Option ι} {l : List κ}
    (h : ∀ e, (φ e).bind move = move' e) : phase move (l.filterMap φ) = phase move' l := by
  induction l using List.reverseRecOn with
  | nil => rfl
  | append_singleton l e ih =>
      rw [List.filterMap_append, phase_concat, ← ih]
      cases he : φ e with
      | none =>
          have hnone : move' e = none := by rw [← h e, he]; rfl
          simp [he, Phase.after, hnone]
      | some e' =>
          have hsome : move' e = move e' := by rw [← h e, he]; rfl
          simp only [List.filterMap_cons, he, List.filterMap_nil]
          rw [phase_concat]
          unfold Phase.after
          rw [hsome]

/-- An initial part of a run that follows the protocol follows it. -/
theorem Follows.left {l l' : List ι} (h : Follows move (l ++ l')) : Follows move l := by
  induction l' using List.reverseRecOn with
  | nil => simpa using h
  | append_singleton l' e ih =>
      apply ih
      unfold Follows at h ⊢
      rw [← List.append_assoc, phase_concat] at h
      cases hp : phase move (l ++ l') with
      | none => rw [hp] at h; exact absurd h (by simp)
      | some p => rfl

/-- Whoever is no longer fresh was set up. -/
theorem setUp_of_phase {l : List ι} {p : Phase} (h : phase move l = some p) (hp : p ≠ .fresh) :
    ∃ e ∈ l, move e = some .setUp := by
  induction l using List.reverseRecOn generalizing p with
  | nil => exact absurd (Option.some.inj h).symm hp
  | append_singleton l e ih =>
      rw [phase_concat] at h
      obtain ⟨q, hq, hafter⟩ := Option.bind_eq_some_iff.mp h
      by_cases hfresh : q = .fresh
      · -- the first move of a fresh client
        subst hfresh
        unfold Phase.after at hafter
        cases hm : move e with
        | none =>
            rw [hm] at hafter
            exact absurd (Option.some.inj hafter).symm hp
        | some m =>
            rw [hm] at hafter
            cases m with
            | setUp => exact ⟨e, by simp, hm⟩
            | enter => exact absurd hafter (by simp [Phase.next])
            | leave => exact absurd hafter (by simp [Phase.next])
      · obtain ⟨e', he', hset⟩ := ih hq hfresh
        exact ⟨e', List.mem_append_left _ he', hset⟩

/-- **Set up before anything else.** -/
theorem Follows.setUp_before {l l' : List ι} {e : ι} {m : Move} (h : Follows move (l ++ e :: l'))
    (he : move e = some m) (hm : m ≠ .setUp) : ∃ e' ∈ l, move e' = some .setUp := by
  have happ : Follows move ((l ++ [e]) ++ l') := by simpa using h
  have hle : Follows move (l ++ [e]) := happ.left
  unfold Follows at hle
  rw [phase_concat] at hle
  obtain ⟨p', hbind⟩ := Option.isSome_iff_exists.mp hle
  obtain ⟨p, hp, hafter⟩ := Option.bind_eq_some_iff.mp hbind
  apply setUp_of_phase hp
  rintro rfl
  unfold Phase.after at hafter
  rw [he] at hafter
  cases m with
  | setUp => exact hm rfl
  | enter => exact absurd hafter (by simp [Phase.next])
  | leave => exact absurd hafter (by simp [Phase.next])

/-- Whoever never moves keeps to the protocol. -/
theorem follows_of_none {l : List ι} (h : ∀ e ∈ l, move e = none) : Follows move l := by
  have hfresh : phase move l = some .fresh := by
    induction l using List.reverseRecOn with
    | nil => rfl
    | append_singleton l e ih =>
        rw [phase_concat, ih (fun e' he' => h e' (by simp [he']))]
        simp [Phase.after, h e (by simp)]
  unfold Follows
  rw [hfresh]
  rfl

end Lifecycle
