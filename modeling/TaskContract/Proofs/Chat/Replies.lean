import TaskContract.Chat.Client
import TaskContract.Proofs.Json.Readable

/-!
# Replies are readable

The contents that a client over the wire gives have been read from texts, so they are values that
are read back when they are written.
-/

namespace TaskContract.Chat

def Client.GivesReadable {σ : Type} (client : Client σ) : Prop :=
  ∀ r s v, (client r s).1 = .response v → v.isReadable = true

theorem isReadable_of_parseContent {t : Text} {v : Json} (h : parseContent t = .ok v) :
    v.isReadable = true := by
  have hfirst : ∀ {ts : List Text} {w : Json}, firstReadable? ts = .ok (some w) →
      w.isReadable = true := by
    intro ts w hw
    induction ts with
    | nil => cases hw
    | cons t rest ih =>
        rw [firstReadable?] at hw
        split at hw
        · rename_i hread
          obtain rfl := Option.some.inj (Except.ok.inj hw)
          exact Json.isReadable_of_read hread
        · cases hw
        · exact ih hw
  rw [parseContent] at h
  split at h
  · rename_i hread
    obtain rfl := Except.ok.inj h
    exact hfirst hread
  · cases h
  · cases h

theorem isReadable_of_firstContent {data v : Json} (hdata : data.isReadable = true)
    (h : firstContent? data = some v) : v.isReadable = true := by
  simp only [firstContent?, Option.bind_eq_bind, Option.bind_eq_some_iff] at h
  obtain ⟨choices, ⟨list, hlist, hchoices⟩, message, ⟨first, hfirst, hmessage⟩, hcontent⟩ := h
  have hreadable := Json.isReadable_of_get hdata hlist
  cases list with
  | arr items =>
      obtain rfl := Option.some.inj hchoices
      have hitems := Json.areReadable_iff.mp hreadable
      have hchoice := hitems first (List.mem_of_head? hfirst)
      exact Json.isReadable_of_get (Json.isReadable_of_get hchoice hmessage) hcontent
  | _ => cases hchoices

theorem isReadable_of_readContent {json : Bool} {content v : Json}
    (hcontent : content.isReadable = true) (h : readContent json content = .ok v) :
    v.isReadable = true := by
  unfold readContent at h
  split at h
  · exact Except.ok.inj h ▸ hcontent
  · dsimp only at h
    obtain ⟨t, -, hparse⟩ := bind_eq_ok_iff.mp h
    cases hread : parseContent t with
    | error e =>
        rw [hread] at hparse
        cases hparse
    | ok w =>
        rw [hread] at hparse
        obtain rfl := Except.ok.inj hparse
        exact isReadable_of_parseContent hread

theorem readContent_ne_done {json : Bool} {content : Json} {t : Try}
    (h : readContent json content = .error t) (r : Response) : t ≠ .done r := by
  rintro rfl
  have hparse : ∀ t, (parseContent t).mapError (fun e => Try.again (.unreadable e))
      ≠ .error (.done r) := by
    intro t
    cases parseContent t <;> nofun
  unfold readContent at h
  split at h
  · cases h
  · dsimp only at h
    split at h
    · exact hparse [] h
    · split at h
      · exact hparse _ h
      · cases h

theorem isReadable_of_outcome {provider : Text} {json : Bool} {x : Exchange} {r : Response}
    (h : x.outcome provider json = .done r) : r.content.isReadable = true := by
  cases x with
  | transportFault m => cases h
  | fault kind m => cases h
  | answer status body =>
      unfold Exchange.outcome at h
      dsimp only at h
      split at h
      · split at h <;> cases h
      · split at h
        · cases h
        · rename_i data hdata
          split at h
          · cases h
          · rename_i content hcontent
            split at h
            · rename_i t hread
              exact absurd h (readContent_ne_done hread r)
            · rename_i v hv
              obtain rfl := Try.done.inj h
              exact isReadable_of_readContent
                (isReadable_of_firstContent (Json.isReadable_of_readDecoded hdata) hcontent) hv

theorem isReadable_of_tries {s : Settings} {provider : Text} {json : Bool} {sent : Sent}
    {left failed : Nat} {last : Option ServiceError} {w : Wire} {r : Response}
    (h : (tries s provider json sent left failed last w).1 = .ok r) :
    r.content.isReadable = true := by
  induction left generalizing failed last w with
  | zero => cases h
  | succ left ih =>
      rw [tries] at h
      split at h
      · cases h
      · dsimp only at h
        split at h
        · cases h
        · cases h
        · split at h
          · rename_i hdone
            obtain rfl := Except.ok.inj h
            exact isReadable_of_outcome hdone
          · cases h
          · exact ih h

/-- **The contents that come over the wire are readable.** -/
theorem overWire_givesReadable (s : Settings) : (Client.overWire s).GivesReadable := by
  intro r w v h
  unfold Client.overWire at h
  split at h
  · rename_i response w' hcomplete
    obtain rfl := Reply.response.inj h
    unfold complete at hcomplete
    dsimp only at hcomplete
    split at hcomplete
    · cases hcomplete
    · split at hcomplete
      · cases hcomplete
      · cases hcomplete
      · split at hcomplete
        · cases hcomplete
        · cases hcomplete
        · split at hcomplete
          · cases hcomplete
          · exact isReadable_of_tries (congrArg Prod.fst hcomplete)
  · cases h

end TaskContract.Chat
