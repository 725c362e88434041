import Mathlib.Data.List.Basic
import TaskContract.Chat.Client

/-!
# What requests take from the wire

A client over the wire goes by the exchanges that its requests meet, and by nothing else on the
wire. So wherever the same exchanges come next, the same request gets the same reply and takes as
many of them.
-/

namespace TaskContract.Chat

namespace Wire

def upcoming (w : Wire) (n : Nat) : List Exchange :=
  w.pending.take n ++ List.replicate (n - w.pending.length) w.otherwise

theorem length_upcoming (w : Wire) (n : Nat) : (w.upcoming n).length = n := by
  rw [upcoming, List.length_append, List.length_take, List.length_replicate]
  omega

/-- A number of exchanges has been taken from the wire. -/
structure Advances (w w' : Wire) (n : Nat) : Prop where
  pending : w'.pending = w.pending.drop n
  otherwise : w'.otherwise = w.otherwise
  sent : w'.sent.length = w.sent.length + n

variable {w w' w'' : Wire} {m n : Nat}

theorem Advances.refl (w : Wire) : w.Advances w 0 :=
  ⟨rfl, rfl, rfl⟩

theorem Advances.trans (h : w.Advances w' m) (h' : w'.Advances w'' n) :
    w.Advances w'' (m + n) where
  pending := by rw [h'.pending, h.pending, List.drop_drop]
  otherwise := h'.otherwise.trans h.otherwise
  sent := by rw [h'.sent, h.sent, Nat.add_assoc]

theorem Advances.upcoming (h : w.Advances w' m) (n : Nat) :
    w'.upcoming n = (w.upcoming (m + n)).drop m := by
  have hlength : m - (w.pending.take (m + n)).length = m - w.pending.length := by
    rw [List.length_take]
    omega
  have hrest : m + n - w.pending.length - (m - w.pending.length) = n - (w.pending.length - m) := by
    omega
  rw [Wire.upcoming, Wire.upcoming, h.pending, h.otherwise, List.length_drop, List.drop_append,
    List.drop_take, hlength, List.drop_replicate, hrest, Nat.add_sub_cancel_left]

theorem take_upcoming (w : Wire) (m n : Nat) :
    (w.upcoming (m + n)).take m = w.upcoming m := by
  have hlength : min (m - (w.pending.take (m + n)).length) (m + n - w.pending.length)
      = m - w.pending.length := by
    rw [List.length_take]
    omega
  rw [upcoming, upcoming, List.take_append, List.take_take, Nat.min_eq_left (Nat.le_add_right m n),
    List.take_replicate, hlength]

/-- Wires with the same exchanges to come have the same ones after some of them. -/
theorem Advances.upcoming_eq {v v' : Wire} (h : w.Advances w' m) (h' : v.Advances v' m)
    (heq : v.upcoming (m + n) = w.upcoming (m + n)) : v'.upcoming n = w'.upcoming n := by
  rw [h.upcoming, h'.upcoming, heq]

end Wire

/-! ## Parts that go by the exchanges -/

variable {α β : Type}

/-- Does the part take exchanges from the wire and go by them alone? -/
def GoesByExchanges (part : Wire → α × Wire) : Prop :=
  ∀ w, ∃ n, w.Advances (part w).2 n ∧ ∀ v, v.upcoming n = w.upcoming n →
    (part v).1 = (part w).1 ∧ v.Advances (part v).2 n

theorem goesByExchanges_pure (a : α) : GoesByExchanges fun w => (a, w) := by
  intro w
  refine ⟨0, Wire.Advances.refl w, ?_⟩
  intro v _
  exact ⟨rfl, Wire.Advances.refl v⟩

theorem goesByExchanges_send (s : Sent) : GoesByExchanges fun w => w.send s := by
  have hadvances : ∀ w : Wire, w.Advances (w.send s).2 1 := by
    intro w
    unfold Wire.send
    cases hpending : w.pending with
    | nil => exact ⟨by simp [hpending], rfl, rfl⟩
    | cons x rest => exact ⟨by simp [hpending], rfl, rfl⟩
  have hnext : ∀ w : Wire, w.upcoming 1 = [(w.send s).1] := by
    intro w
    unfold Wire.send Wire.upcoming
    cases w.pending with
    | nil => rfl
    | cons x rest => simp
  intro w
  refine ⟨1, hadvances w, ?_⟩
  intro v hv
  rw [hnext, hnext] at hv
  exact ⟨List.singleton_inj.mp hv, hadvances v⟩

/-- A delay takes nothing from the wire. -/
theorem GoesByExchanges.wait {part : Wire → α × Wire} (h : GoesByExchanges part) (delay : Json) :
    GoesByExchanges fun w => part (w.wait delay) := by
  intro w
  obtain ⟨n, hadvances, hsame⟩ := h (w.wait delay)
  refine ⟨n, ⟨hadvances.pending, hadvances.otherwise, hadvances.sent⟩, ?_⟩
  intro v hv
  obtain ⟨hresult, hadvances'⟩ := hsame (v.wait delay) hv
  exact ⟨hresult, hadvances'.pending, hadvances'.otherwise, hadvances'.sent⟩

theorem GoesByExchanges.andThen {first : Wire → α × Wire} {rest : α → Wire → β × Wire}
    (hfirst : GoesByExchanges first) (hrest : ∀ a, GoesByExchanges (rest a)) :
    GoesByExchanges fun w => rest (first w).1 (first w).2 := by
  intro w
  obtain ⟨m, hadvances, hsame⟩ := hfirst w
  obtain ⟨n, hadvances', hsame'⟩ := hrest (first w).1 (first w).2
  refine ⟨m + n, hadvances.trans hadvances', ?_⟩
  intro v hv
  have hfront : v.upcoming m = w.upcoming m := by
    rw [← v.take_upcoming m n, ← w.take_upcoming m n, hv]
  obtain ⟨hresult, hadvancesv⟩ := hsame v hfront
  obtain ⟨hresult', hadvancesv'⟩ := hsame' (first v).2 (hadvances.upcoming_eq hadvancesv hv)
  rw [← hresult] at hresult' hadvancesv'
  exact ⟨hresult'.trans (by rw [hresult]), hadvancesv.trans hadvancesv'⟩

/-! ## Requests -/

section

variable (s : Settings) (provider : Text) (json : Bool) (sent : Sent) (left failed : Nat)

/-- What a try comes to by what it meets, with the tries that may follow it. -/
def follow (x : Exchange) (w : Wire) : Except Failure Response × Wire :=
  match x.outcome provider json with
  | .done r => (.ok r, w)
  | .stop f => (.error f, w)
  | .again e => tries s provider json sent left (failed + 1) (some e) w

def attempt (w : Wire) : Except Failure Response × Wire :=
  match Encoding.utf8.fault? sent.body.tight, isFinite sent.body with
  | _, false => (.error .notFinite, w)
  | some f, _ => (.error (.encoding f), w)
  | none, _ => follow s provider json sent left failed (w.send sent).1 (w.send sent).2

theorem tries_succ (last : Option ServiceError) (w : Wire) :
    tries s provider json sent (left + 1) failed last w
      = match w.paused s.retryDelay failed with
        | none => (.error .delayOverflow, w)
        | some w => attempt s provider json sent left failed w := by
  rw [tries]
  cases w.paused s.retryDelay failed with
  | none => rfl
  | some paused =>
      unfold attempt
      dsimp only
      cases isFinite sent.body with
      | false => rfl
      | true => cases Encoding.utf8.fault? sent.body.tight <;> rfl

/-- There is no delay before the first try. -/
theorem tries_first (last : Option ServiceError) (w : Wire) :
    tries s provider json sent (left + 1) 0 last w = attempt s provider json sent left 0 w :=
  tries_succ s provider json sent left 0 last w

theorem goesByExchanges_tries (last : Option ServiceError) :
    GoesByExchanges (tries s provider json sent left failed last) := by
  induction left generalizing failed last with
  | zero => exact goesByExchanges_pure _
  | succ left ih =>
      have hfollow : ∀ x, GoesByExchanges (follow s provider json sent left failed x) := by
        intro x
        unfold follow
        cases x.outcome provider json with
        | done r => exact goesByExchanges_pure _
        | stop f => exact goesByExchanges_pure _
        | again e => exact ih (failed + 1) (some e)
      have hattempt : GoesByExchanges (attempt s provider json sent left failed) := by
        unfold attempt
        cases isFinite sent.body with
        | false => exact goesByExchanges_pure _
        | true =>
            cases Encoding.utf8.fault? sent.body.tight with
            | some f => exact goesByExchanges_pure _
            | none => exact (goesByExchanges_send sent).andThen hfollow
      rw [funext (tries_succ s provider json sent left failed last)]
      by_cases hfailed : failed = 0
      · simp only [Wire.paused, if_pos hfailed]
        exact hattempt
      · cases hdelay : delayAfter? s.retryDelay failed with
        | none =>
            simp only [Wire.paused, if_neg hfailed, hdelay, Option.map_none]
            exact goesByExchanges_pure _
        | some delay =>
            simp only [Wire.paused, if_neg hfailed, hdelay, Option.map_some]
            exact hattempt.wait delay

end

theorem goesByExchanges_complete (s : Settings) (r : Request) :
    GoesByExchanges (complete s r) := by
  unfold complete
  cases s.providers.lookup r.provider with
  | none => exact goesByExchanges_pure _
  | some p =>
      dsimp only
      split
      · exact goesByExchanges_pure _
      · exact goesByExchanges_pure _
      · split
        · exact goesByExchanges_pure _
        · exact goesByExchanges_pure _
        · split
          · exact goesByExchanges_pure _
          · exact goesByExchanges_tries s r.provider _ _ _ 0 none

def Reply.ofResult : Except Failure Response → Reply
  | .ok r => .response r.content
  | .error f => .failed f

theorem overWire_eq (s : Settings) (r : Request) (w : Wire) :
    Client.overWire s r w = (Reply.ofResult (complete s r w).1, (complete s r w).2) := by
  unfold Client.overWire
  cases complete s r w with
  | mk result after => cases result <;> rfl

/-- **A client over the wire goes by the exchanges alone.** -/
theorem goesByExchanges_overWire (s : Settings) (r : Request) :
    GoesByExchanges (Client.overWire s r) := by
  rw [funext (overWire_eq s r)]
  exact (goesByExchanges_complete s r).andThen fun x => goesByExchanges_pure (Reply.ofResult x)

end TaskContract.Chat
