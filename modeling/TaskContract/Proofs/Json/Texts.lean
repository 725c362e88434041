import TaskContract.Proofs.Json.RoundTrip

/-!
# Values with changed texts

A change of texts is made everywhere in a value, in the names of members too. Two names may become
one by it, and a reader then merges their members. What is read is the value as it was if and only
if every text in it stays as it is.
-/

namespace TaskContract

namespace Json

section

variable (f : Text → Text)

mutual

def mapTexts : Json → Json
  | .null => .null
  | .bool b => .bool b
  | .int n => .int n
  | .float x => .float x
  | .str s => .str (f s)
  | .arr items => .arr (mapTextsOfItems items)
  | .obj ms => .obj (mapTextsOfMembers ms)

def mapTextsOfItems : List Json → List Json
  | [] => []
  | v :: rest => mapTexts v :: mapTextsOfItems rest

def mapTextsOfMembers : List (Text × Json) → List (Text × Json)
  | [] => []
  | (k, v) :: rest => (f k, mapTexts v) :: mapTextsOfMembers rest

end

mutual

theorem numbersFit_mapTexts : ∀ v : Json, (v.mapTexts f).numbersFit = v.numbersFit
  | .null | .bool _ | .int _ | .float _ | .str _ => rfl
  | .arr items => numbersFit_mapTextsOfItems items
  | .obj ms => numbersFit_mapTextsOfMembers ms

theorem numbersFit_mapTextsOfItems : ∀ items : List Json,
    numbersFitItems (mapTextsOfItems f items) = numbersFitItems items
  | [] => rfl
  | v :: rest => by
      rw [mapTextsOfItems, numbersFitItems, numbersFit_mapTexts v,
        numbersFit_mapTextsOfItems rest, numbersFitItems]

theorem numbersFit_mapTextsOfMembers : ∀ ms : List (Text × Json),
    numbersFitMembers (mapTextsOfMembers f ms) = numbersFitMembers ms
  | [] => rfl
  | (k, v) :: rest => by
      rw [mapTextsOfMembers, numbersFitMembers, numbersFit_mapTexts v,
        numbersFit_mapTextsOfMembers rest, numbersFitMembers]

end

theorem isNested_mapTexts (v : Json) : (v.mapTexts f).isNested = v.isNested := by
  cases v <;> rfl

variable {f} {p : Text → Bool}

mutual

theorem allTexts_mapTexts (hf : ∀ s, p s = true → p (f s) = true) :
    ∀ v : Json, v.allTexts p = true → (v.mapTexts f).allTexts p = true
  | .null, _ | .bool _, _ | .int _, _ | .float _, _ => rfl
  | .str s, h => hf s h
  | .arr items, h => allTextsOfItems_mapTexts hf items h
  | .obj ms, h => allTextsOfMembers_mapTexts hf ms h

theorem allTextsOfItems_mapTexts (hf : ∀ s, p s = true → p (f s) = true) :
    ∀ items : List Json, allTextsOfItems p items = true →
      allTextsOfItems p (mapTextsOfItems f items) = true
  | [], _ => rfl
  | v :: rest, h => by
      obtain ⟨hv, hrest⟩ := Bool.and_eq_true_iff.mp h
      exact Bool.and_eq_true_iff.mpr
        ⟨allTexts_mapTexts hf v hv, allTextsOfItems_mapTexts hf rest hrest⟩

theorem allTextsOfMembers_mapTexts (hf : ∀ s, p s = true → p (f s) = true) :
    ∀ ms : List (Text × Json), allTextsOfMembers p ms = true →
      allTextsOfMembers p (mapTextsOfMembers f ms) = true
  | [], _ => rfl
  | (k, v) :: rest, h => by
      simp only [allTextsOfMembers, Bool.and_eq_true] at h
      obtain ⟨⟨hk, hv⟩, hrest⟩ := h
      simp only [mapTextsOfMembers, allTextsOfMembers, Bool.and_eq_true]
      exact ⟨⟨hf k hk, allTexts_mapTexts hf v hv⟩, allTextsOfMembers_mapTexts hf rest hrest⟩

end

/-! ## Values that stay as they are -/

mutual

theorem mapTexts_eq_self : ∀ v : Json, v.allTexts (fun s => decide (f s = s)) = true →
    v.mapTexts f = v
  | .null, _ | .bool _, _ | .int _, _ | .float _, _ => rfl
  | .str _, h => congrArg Json.str (of_decide_eq_true h)
  | .arr items, h => congrArg Json.arr (mapTextsOfItems_eq_self items h)
  | .obj ms, h => congrArg Json.obj (mapTextsOfMembers_eq_self ms h)

theorem mapTextsOfItems_eq_self : ∀ items : List Json,
    allTextsOfItems (fun s => decide (f s = s)) items = true → mapTextsOfItems f items = items
  | [], _ => rfl
  | v :: rest, h => by
      obtain ⟨hv, hrest⟩ := Bool.and_eq_true_iff.mp h
      rw [mapTextsOfItems, mapTexts_eq_self v hv, mapTextsOfItems_eq_self rest hrest]

theorem mapTextsOfMembers_eq_self : ∀ ms : List (Text × Json),
    allTextsOfMembers (fun s => decide (f s = s)) ms = true → mapTextsOfMembers f ms = ms
  | [], _ => rfl
  | (k, v) :: rest, h => by
      simp only [allTextsOfMembers, Bool.and_eq_true, decide_eq_true_eq] at h
      obtain ⟨⟨hk, hv⟩, hrest⟩ := h
      rw [mapTextsOfMembers, hk, mapTexts_eq_self v hv, mapTextsOfMembers_eq_self rest hrest]

end

theorem length_mergedMembers (ms : List (Text × Json)) :
    (mergedMembers ms).length = ms.length := by
  induction ms with
  | nil => rfl
  | cons m rest ih => rw [mergedMembers, List.length_cons, ih, List.length_cons]

theorem length_mapTextsOfMembers (ms : List (Text × Json)) :
    (mapTextsOfMembers f ms).length = ms.length := by
  induction ms with
  | nil => rfl
  | cons m rest ih => rw [mapTextsOfMembers, List.length_cons, ih, List.length_cons]

mutual

/-- No text is changed if the value is the same after its members are merged: then no member is
lost, so each stands in its place. -/
theorem allTexts_of_merged_mapTexts : ∀ v : Json, (v.mapTexts f).merged = v →
    v.allTexts (fun s => decide (f s = s)) = true
  | .null, _ | .bool _, _ | .int _, _ | .float _, _ => rfl
  | .str _, h => decide_eq_true (Json.str.inj h)
  | .arr items, h => allTextsOfItems_of_merged items (Json.arr.inj h)
  | .obj ms, h => by
      have hmembers : Members.ofPairs (mergedMembers (mapTextsOfMembers f ms)) = ms :=
        Json.obj.inj h
      have hlength : (Members.ofPairs (mergedMembers (mapTextsOfMembers f ms))).length
          = (mergedMembers (mapTextsOfMembers f ms)).length := by
        rw [hmembers, length_mergedMembers, length_mapTextsOfMembers]
      rw [Members.ofPairs_of_length hlength] at hmembers
      exact allTextsOfMembers_of_merged ms hmembers

theorem allTextsOfItems_of_merged : ∀ items : List Json,
    mergedItems (mapTextsOfItems f items) = items →
      allTextsOfItems (fun s => decide (f s = s)) items = true
  | [], _ => rfl
  | v :: rest, h => by
      obtain ⟨hv, hrest⟩ := List.cons.inj h
      exact Bool.and_eq_true_iff.mpr
        ⟨allTexts_of_merged_mapTexts v hv, allTextsOfItems_of_merged rest hrest⟩

theorem allTextsOfMembers_of_merged : ∀ ms : List (Text × Json),
    mergedMembers (mapTextsOfMembers f ms) = ms →
      allTextsOfMembers (fun s => decide (f s = s)) ms = true
  | [], _ => rfl
  | (k, v) :: rest, h => by
      obtain ⟨hm, hrest⟩ := List.cons.inj h
      obtain ⟨hk, hv⟩ := Prod.mk.inj hm
      simp only [allTextsOfMembers, Bool.and_eq_true, decide_eq_true_eq]
      exact ⟨⟨hk, allTexts_of_merged_mapTexts v hv⟩, allTextsOfMembers_of_merged rest hrest⟩

end

/-- **A value is the same after a change of its texts if and only if every text in it is**, also
where members of one name are merged then. -/
theorem merged_mapTexts_eq_iff {v : Json} (h : v.merged = v) :
    (v.mapTexts f).merged = v ↔ v.allTexts (fun s => decide (f s = s)) = true := by
  constructor
  · exact allTexts_of_merged_mapTexts v
  · intro hsame
    rw [mapTexts_eq_self v hsame, h]

end

end Json

end TaskContract
