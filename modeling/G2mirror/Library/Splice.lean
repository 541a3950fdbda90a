import G2mirror.Library.Machine
import Mathlib.Data.Nat.Notation

/-!
# Starting from a snapshot and a page fetched for it

A viewer of a stream starts from a snapshot. It asks for the page of what came
before the snapshot, and holds back the outputs that follow it until the page is
there. Another snapshot may arrive meanwhile, and another page is asked for. The
pages arrive in the order in which they were asked for.
-/

namespace Splice

variable {C E σ ω π ρ : Type}

/-- What arrives at a viewer. -/
inductive Arrival (σ ω π ρ : Type)
  /-- A snapshot, and the request for its page if there is one to fetch. -/
  | snapshot (snapshot : σ) (fetch : Option ρ)
  | output (output : ω)
  | reply (page : π)
  /-- The viewing ends. -/
  | leave

/-- What a viewer is waiting for. -/
inductive Mode (σ ω : Type)
  | await
  /-- The page for a snapshot is on its way, behind `skip` others. -/
  | fetching (snapshot : σ) (pending : List ω) (skip : ℕ)
  | live
  | ended
  deriving DecidableEq

/-- What a viewer goes live with. -/
structure Launch (σ ω π : Type) where
  snapshot : σ
  page : Option π
  outputs : List ω

/-- What an arrival makes a viewer do: its new mode, the request it makes, and
what it goes live with. -/
structure Effect (σ ω π ρ : Type) where
  mode : Mode σ ω
  asks : Option ρ
  launch : Option (Launch σ ω π)

/-- A change of the mode only. -/
def Effect.stay (mode : Mode σ ω) : Effect σ ω π ρ := ⟨mode, none, none⟩

/-- What a viewer does with an arrival. -/
def arrive : Mode σ ω → Arrival σ ω π ρ → Effect σ ω π ρ
  | .ended, _ => .stay .ended
  | _, .leave => .stay .ended
  | .await, .snapshot s (some r) => ⟨.fetching s [] 0, some r, none⟩
  | .await, .snapshot s none => ⟨.live, none, some ⟨s, none, []⟩⟩
  | .fetching _ _ skip, .snapshot s (some r) => ⟨.fetching s [] (skip + 1), some r, none⟩
  | .fetching .., .snapshot s none => ⟨.live, none, some ⟨s, none, []⟩⟩
  | .fetching s pending skip, .output o => .stay (.fetching s (pending ++ [o]) skip)
  | .fetching s pending (skip + 1), .reply _ => .stay (.fetching s pending skip)
  | .fetching s pending 0, .reply page => ⟨.live, none, some ⟨s, some page, pending⟩⟩
  | mode, _ => .stay mode

/-- What a viewer does at an event, which may be no arrival. -/
def react (mode : Mode σ ω) : Option (Arrival σ ω π ρ) → Effect σ ω π ρ
  | some arrival => arrive mode arrival
  | none => .stay mode

/-- A program that views a stream in this way: its states, what it has asked
for, and that each of its steps is what the mode requires. -/
structure Viewer (C E σ ω π ρ : Type) where
  step : C → E → Option C
  mode : C → Mode σ ω
  /-- Everything it has asked for, oldest first. -/
  requests : C → List ρ
  arrival : C → E → Option (Arrival σ ω π ρ)
  launched : C → Launch σ ω π → C
  step_mode : ∀ {c e c'}, step c e = some c' → mode c' = (react (mode c) (arrival c e)).mode
  step_requests : ∀ {c e c'}, step c e = some c' →
    requests c' = requests c ++ (react (mode c) (arrival c e)).asks.toList
  step_launch : ∀ {c e c' launch}, step c e = some c' →
    (react (mode c) (arrival c e)).launch = some launch → c' = launched c launch

/-- The latest snapshot, the request for its page if there is one to fetch, where
it stands among all requests, and the outputs since then. -/
structure Shown (σ ω ρ : Type) where
  snapshot : σ
  fetch : Option ρ
  place : ℕ
  outputs : List ω
  deriving DecidableEq

/-- A viewer with what has arrived since it began to wait for a snapshot. -/
structure Viewing (C σ ω π ρ : Type) where
  viewer : C
  /-- How many requests it had made before. -/
  earlier : ℕ
  /-- The pages that have arrived, oldest first. -/
  replies : List π
  shown : Option (Shown σ ω ρ)

/-- The arrival, noted. Requests are counted as they were before it. -/
def Shown.after (shown : Option (Shown σ ω ρ)) (requests : ℕ) :
    Option (Arrival σ ω π ρ) → Option (Shown σ ω ρ)
  | some (.snapshot s fetch) => some ⟨s, fetch, requests, []⟩
  | some (.output o) => shown.map fun s => { s with outputs := s.outputs ++ [o] }
  | _ => shown

/-- The page in an arrival. -/
def Arrival.page? : Option (Arrival σ ω π ρ) → Option π
  | some (.reply page) => some page
  | _ => none

namespace Viewing

variable (V : Viewer C E σ ω π ρ)

/-- A viewer that begins to wait for a snapshot. -/
def start (c : C) : Viewing C σ ω π ρ := ⟨c, (V.requests c).length, [], none⟩

/-- An event. A page arrives only if one was asked for that has not arrived. -/
def step (t : Viewing C σ ω π ρ) (e : E) : Option (Viewing C σ ω π ρ) :=
  let arrival := V.arrival t.viewer e
  if (Arrival.page? arrival).isSome ∧
      (V.requests t.viewer).length ≤ t.earlier + t.replies.length then none
  else (V.step t.viewer e).map fun c =>
    { t with
      viewer := c
      replies := t.replies ++ (Arrival.page? arrival).toList
      shown := Shown.after t.shown (V.requests t.viewer).length arrival }

/-- The page that was asked for with the latest snapshot. -/
def page (t : Viewing C σ ω π ρ) (shown : Shown σ ω ρ) : Option π :=
  shown.fetch.bind fun _ => t.replies[shown.place - t.earlier]?

/-- A viewer that waits for a page waits for the one of the latest snapshot,
which is the last one it asked for. -/
def Waits (t : Viewing C σ ω π ρ) : Prop :=
  match V.mode t.viewer with
  | .fetching s pending skip =>
    ∃ r, t.shown = some ⟨s, some r, t.earlier + t.replies.length + skip, pending⟩ ∧
      (V.requests t.viewer).length = t.earlier + t.replies.length + skip + 1 ∧
      (V.requests t.viewer)[t.earlier + t.replies.length + skip]? = some r
  | .await => (V.requests t.viewer).length = t.earlier + t.replies.length
  | _ => True

variable {V}

/-- What a step of a viewing is: a page in it was asked for, the viewer takes
its own step, and the arrival is noted. -/
theorem step_eq_some {t t' : Viewing C σ ω π ρ} {e : E} (h : step V t e = some t') :
    ((Arrival.page? (V.arrival t.viewer e)).isSome →
      t.earlier + t.replies.length < (V.requests t.viewer).length) ∧
    V.step t.viewer e = some t'.viewer ∧ t'.earlier = t.earlier ∧
    t'.replies = t.replies ++ (Arrival.page? (V.arrival t.viewer e)).toList ∧
    t'.shown = Shown.after t.shown (V.requests t.viewer).length (V.arrival t.viewer e) := by
  unfold step at h
  dsimp only at h
  split at h
  · cases h
  · rename_i hpage
    obtain ⟨c, hc, rfl⟩ := Option.map_eq_some_iff.mp h
    exact ⟨fun hsome => Nat.lt_of_not_le fun hle => hpage ⟨hsome, hle⟩, hc, rfl, rfl, rfl⟩

/-- An event leaves a viewer waiting for the page of the latest snapshot. -/
theorem Waits.next {t t' : Viewing C σ ω π ρ} {e : E} (hw : t.Waits V)
    (h : step V t e = some t') : t'.Waits V := by
  obtain ⟨hpage, hv, hearlier, hreplies, hshown⟩ := step_eq_some h
  have hmode := V.step_mode hv
  have hreq := V.step_requests hv
  unfold Waits at hw ⊢
  rw [hmode, hearlier, hreplies, hreq, hshown]
  generalize V.arrival t.viewer e = arrival at *
  match hm : V.mode t.viewer with
  | .ended => cases arrival <;> simp [react, arrive, Effect.stay]
  | .live => rcases arrival with _ | _ | _ | _ | _ <;> simp [react, arrive, Effect.stay]
  | .await =>
    rw [hm] at hw
    dsimp only at hw
    match arrival with
    | none => simpa [react, Effect.stay, Arrival.page?] using hw
    | some .leave => simp [react, arrive, Effect.stay]
    | some (.output o) => simpa [react, arrive, Effect.stay, Arrival.page?] using hw
    | some (.reply page) =>
      have := hpage rfl
      omega
    | some (.snapshot s none) => simp [react, arrive]
    | some (.snapshot s (some r)) => simp [react, arrive, Arrival.page?, Shown.after, hw]
  | .fetching s pending skip =>
    rw [hm] at hw
    obtain ⟨r, hs, hlen, hlast⟩ := hw
    match arrival with
    | none => simpa [react, Effect.stay, Arrival.page?, Shown.after, hs] using ⟨hlen, hlast⟩
    | some .leave => simp [react, arrive, Effect.stay]
    | some (.output o) =>
      simpa [react, arrive, Effect.stay, Arrival.page?, Shown.after, hs] using ⟨hlen, hlast⟩
    | some (.reply page) =>
      cases skip with
      | zero => simp [react, arrive]
      | succ skip =>
        have hplace : t.earlier + (t.replies.length + 1) + skip =
            t.earlier + t.replies.length + (skip + 1) := by omega
        simpa [react, arrive, Effect.stay, Arrival.page?, Shown.after, hs, hplace] using
          ⟨hlen, hlast⟩
    | some (.snapshot s' none) => simp [react, arrive]
    | some (.snapshot s' (some r)) =>
      have hplace : t.earlier + t.replies.length + (skip + 1) = (V.requests t.viewer).length := by
        omega
      simp [react, arrive, Arrival.page?, Shown.after, hplace]

/-- What it goes live with is what has been noted. -/
theorem Waits.launch {t t' : Viewing C σ ω π ρ} {e : E} {launch : Launch σ ω π} (hw : t.Waits V)
    (h : step V t e = some t')
    (hlaunch : (react (V.mode t.viewer) (V.arrival t.viewer e)).launch = some launch) :
    ∃ shown, t'.shown = some shown ∧
      launch = ⟨shown.snapshot, page t' shown, shown.outputs⟩ ∧
      ∀ r, shown.fetch = some r →
        (page t' shown).isSome ∧ (V.requests t'.viewer)[shown.place]? = some r := by
  obtain ⟨-, hv, hearlier, hreplies, hshown⟩ := step_eq_some h
  have hreq := V.step_requests hv
  unfold Waits at hw
  unfold page
  rw [hearlier, hreplies, hshown, hreq]
  generalize V.arrival t.viewer e = arrival at *
  match hm : V.mode t.viewer, arrival with
  | .await, some (.snapshot s none) =>
    rw [hm] at hlaunch
    obtain rfl := Option.some.inj hlaunch
    exact ⟨_, rfl, rfl, nofun⟩
  | .fetching s pending skip, some (.snapshot s' none) =>
    rw [hm] at hlaunch
    obtain rfl := Option.some.inj hlaunch
    exact ⟨_, rfl, rfl, nofun⟩
  | .fetching s pending 0, some (.reply page) =>
    rw [hm] at hlaunch hw
    obtain rfl := Option.some.inj hlaunch
    obtain ⟨r, hs, hlen, hlast⟩ := hw
    refine ⟨_, hs, ?_, fun _ hr => ⟨?_, ?_⟩⟩
    · simp [Arrival.page?]
    · simp [Arrival.page?]
    · simpa [react, arrive, ← hr] using hlast
  | .fetching s pending (skip + 1), some (.reply page) => rw [hm] at hlaunch; cases hlaunch
  | .fetching .., some (.output _) => rw [hm] at hlaunch; cases hlaunch
  | .fetching .., some .leave => rw [hm] at hlaunch; cases hlaunch
  | .await, some (.snapshot s (some r)) => rw [hm] at hlaunch; cases hlaunch
  | .fetching .., some (.snapshot s (some r)) => rw [hm] at hlaunch; cases hlaunch
  | .await, some (.reply _) => rw [hm] at hlaunch; cases hlaunch
  | .await, some (.output _) => rw [hm] at hlaunch; cases hlaunch
  | .await, some .leave => rw [hm] at hlaunch; cases hlaunch
  | .live, some a => rw [hm] at hlaunch; cases a <;> cases hlaunch
  | .ended, some a => rw [hm] at hlaunch; cases hlaunch
  | _, none => cases hlaunch

end Viewing
end Splice
