import Polaris.Journal.Later
import Polaris.Journal.Stored

namespace Polaris
open PyJson PyVal SortedDict Journal

/-- No two texts have one digest. -/
def Sha256.CollisionFree (sha : Sha256) : Prop := Function.Injective sha.hexdigest

/-- Digests of a table differ from each other and from those that other texts get. -/
theorem Sha256.ofTable_collisionFree {digests : List (String × String)}
    (hdistinct : (digests.map Prod.snd).Nodup)
    (hdigest : ∀ d ∈ digests, d.2.toList.head? ≠ some 'x') : (ofTable digests).CollisionFree := by
  have hcases : ∀ text, (text, (ofTable digests).hexdigest text) ∈ digests ∨
      (ofTable digests).hexdigest text = "x" ++ text := by
    intro text
    cases hlookup : digests.lookup text with
    | none => exact .inr (by simp [ofTable, hlookup])
    | some digest =>
        obtain ⟨before, after, rfl, -⟩ := List.lookup_eq_some_iff.1 hlookup
        exact .inl (by simp [ofTable, hlookup])
  have hother : ∀ text d, d ∈ digests → d.2 ≠ "x" ++ text := by
    intro text d hd heq
    refine hdigest d hd ?_
    rw [heq, String.toList_append]
    rfl
  intro s t hst
  rcases hcases s with hs | hs <;> rcases hcases t with ht | ht
  · rw [hst] at hs
    exact congrArg Prod.fst (List.inj_on_of_nodup_map hdistinct hs ht rfl)
  · exact absurd (hst.trans ht) (hother t _ hs)
  · exact absurd (hst.symm.trans hs) (hother s _ ht)
  · have hlist := congrArg String.toList (hs.symm.trans (hst.trans ht))
    simp only [String.toList_append, List.append_cancel_left_eq] at hlist
    exact String.toList_injective hlist

theorem sha256Hex_eq_ok {sha : Sha256} {v : PyVal} {digest : String}
    (h : sha256Hex sha v = .ok digest) :
    ∃ column, canonicalJson v = .ok column ∧ digest = sha.hexdigest column.text := by
  unfold sha256Hex at h
  cases hv : canonicalJson v with
  | error e => simp [hv, bind, Except.bind] at h
  | ok column => exact ⟨column, rfl, by simpa [hv, bind, Except.bind, pure, Except.pure] using h.symm⟩

theorem JsonColumn.value_eq {c d : JsonColumn} (h : c.text = d.text) : c.value = d.value := by
  have hc := c.decodes
  rw [h, d.decodes] at hc
  exact (Except.ok.inj hc).symm

theorem Sha256.CollisionFree.stored_eq {sha : Sha256} (hsha : sha.CollisionFree) {v w : PyVal}
    {digest : String} (hv : sha256Hex sha v = .ok digest) (hw : sha256Hex sha w = .ok digest) :
    stored v = stored w := by
  obtain ⟨c, hc, rfl⟩ := sha256Hex_eq_ok hv
  obtain ⟨d, hd, hsame⟩ := sha256Hex_eq_ok hw
  have hvalue := JsonColumn.value_eq (hsha hsame)
  rwa [(canonicalJson_eq_ok hc).2.1, (canonicalJson_eq_ok hd).2.1] at hvalue

theorem stepIdOf_eq_ok {sha : Sha256} {runId key id : String} (h : stepIdOf sha runId key = .ok id) :
    ∃ digest, sha256Hex sha (dict [("run_id", .str runId), ("key", .str key)]) = .ok digest ∧
      id = "step_" ++ digest := by
  unfold stepIdOf at h
  cases hdigest : sha256Hex sha (dict [("run_id", .str runId), ("key", .str key)]) with
  | error e => simp [hdigest, bind, Except.bind] at h
  | ok digest => exact ⟨digest, rfl, by simpa [hdigest, bind, Except.bind, pure, Except.pure] using h.symm⟩

theorem lookup_of_stored_eq {es fs : List (String × PyVal)} (h : stored (dict es) = stored (dict fs))
    (key : String) : (lastOf key es).map stored = (lastOf key fs).map stored := by
  simp only [dict, stored_map, PyVal.map.injEq, true_and] at h
  rw [← lookup_storedEntries, h, lookup_storedEntries]

theorem coerceSafety_value (safety : SafetyClass) : coerceSafety safety.value = .ok safety := by
  cases safety <;> rfl

theorem SafetyClass.value_injective : Function.Injective SafetyClass.value := by
  intro a b h
  have := coerceSafety_value a
  rw [h, coerceSafety_value] at this
  exact (Except.ok.inj this).symm

namespace StepRecord

/-- The identity of the row is the digest of what it was created with. -/
structure Addressed (sha : Sha256) (r : StepRecord) : Prop where
  input : r.inputHash = sha.hexdigest r.input.text
  key : stepKey sha r.kind r.name r.inputHash r.safety r.sequence = .ok r.key
  id : stepIdOf sha r.runId r.key = .ok r.id

theorem Addressed.of_origin {sha : Sha256} {r s : StepRecord} (h : r.Addressed sha)
    (horigin : s.origin = r.origin) : s.Addressed sha := by
  obtain ⟨hinput, hkey, hid⟩ := h
  simp only [origin, Prod.mk.injEq] at horigin
  obtain ⟨h1, h2, h3, h4, h5, h6, h7, h8, h9⟩ := horigin
  exact ⟨by rw [h7, h6, hinput], by rw [h4, h5, h7, h8, h9, h3, hkey], by rw [h2, h3, h1, hid]⟩

end StepRecord

def createdId (sha : Sha256) (runId kind name : String) (input : PyVal) (safety : SafetyClass)
    (sequence : ℤ) : Except PyError String := do
  let inputHash ← sha256Hex sha input
  let key ← stepKey sha kind name inputHash safety (some sequence)
  stepIdOf sha runId key

namespace Journal
variable {sha : Sha256} {a : Ambient} {j j' : Journal} {r : StepRecord}

def Addressed (sha : Sha256) (j : Journal) : Prop := ∀ r ∈ j.steps, r.Addressed sha

theorem createStep_created {runId kind name : String} {input : PyVal} {safety : SafetyClass}
    {sequence : ℤ} (h : createStep sha a runId kind name input safety.value (some sequence) j =
      (.ok r, j')) :
    createdId sha runId kind name input safety sequence = .ok r.id ∧ r ∈ j'.steps ∧
      (j' = j ∨ (∀ s ∈ j.steps, s.id ≠ r.id) ∧ j'.steps = j.steps ++ [r] ∧ r.IsNew ∧
        r.Addressed sha ∧ r.runId = runId ∧ r.kind = kind ∧ r.name = name ∧
        r.input.value = stored input ∧ r.safety = safety ∧ r.sequence = some sequence) := by
  obtain ⟨run, inputJson, inputHash, safetyValue, key, stepId, -, hinput, hhash, hsafety, hkey,
    hid, hcase⟩ := createStep_ok h
  obtain rfl : safety = safetyValue := by
    rw [coerceSafety_value] at hsafety
    exact Except.ok.inj hsafety
  have hcreated : createdId sha runId kind name input safety sequence = .ok stepId := by
    simp [createdId, hhash, hkey, hid, bind, Except.bind]
  rcases hcase with ⟨rfl, hfound⟩ | ⟨hfresh, column, rfl, rfl⟩
  · exact ⟨by rw [hcreated, Table.find_key hfound], Table.find_mem hfound, .inl rfl⟩
  · refine ⟨hcreated, by simp, .inr ⟨hfresh, rfl, ⟨rfl, rfl, rfl, rfl, rfl, rfl⟩, ⟨?_, hkey, hid⟩,
      rfl, rfl, rfl, (canonicalJson_eq_ok hinput).2.1, rfl, rfl⟩⟩
    obtain ⟨c, hc, hdigest⟩ := sha256Hex_eq_ok hhash
    rw [hinput] at hc
    obtain rfl := Except.ok.inj hc
    exact hdigest

theorem addressed_after (hj : j.StepsKeyed) (haddr : j.Addressed sha) (c : HonestCall) :
    (c.1.after sha j).Addressed sha := by
  have hlater := @later_after sha _ hj c
  have hkeyed := (@after_moves sha _ hj c).stepsKeyed hj
  rcases c.1.outcome_cases sha j with ⟨b, h⟩ | ⟨-, h⟩
  · by_cases hc : c.1.call.createsStep
    · obtain ⟨⟨call, a⟩, hhonest⟩ := c
      cases call <;> simp only [JournalCall.createsStep] at hc
      obtain ⟨run, inputJson, inputHash, safety, key, stepId, -, hinput, hhash, -, hkey, hid,
        ⟨hsame, -⟩ | ⟨-, column, rfl, hjournal⟩⟩ := createStep_ok h
      · rwa [hsame]
      · rw [hjournal]
        intro s hs
        rcases List.mem_append.1 hs with hs | hs
        · exact haddr s hs
        · obtain rfl := List.mem_singleton.1 hs
          obtain ⟨column, hcolumn, hdigest⟩ := sha256Hex_eq_ok hhash
          rw [hinput] at hcolumn
          obtain rfl := Except.ok.inj hcolumn
          exact ⟨hdigest, hkey, hid⟩
    · intro s hs
      obtain ⟨r, hr, hrs⟩ := rows_follow hj hlater hkeyed hc h s hs
      exact (haddr r hr).of_origin hrs.origin
  · rwa [h]

theorem addressed_history (sha : Sha256) (calls : List HonestCall) :
    (history sha calls).Addressed sha := by
  induction calls using List.reverseRec with
  | nil => simp [history, runCalls, empty, Addressed]
  | append_singleton calls c ih =>
      rw [history_concat]
      exact addressed_after (history_invariant sha calls).keyed ih c

theorem origin_of_createdId (hsha : sha.CollisionFree) {runId kind name : String} {input : PyVal}
    {safety : SafetyClass} {sequence : ℤ} (haddr : r.Addressed sha)
    (h : createdId sha runId kind name input safety sequence = .ok r.id) :
    r.runId = runId ∧ r.kind = kind ∧ r.name = name ∧ r.input.value = stored input ∧
      r.safety = safety ∧ r.sequence = some sequence := by
  simp only [createdId, bind_eq_ok] at h
  obtain ⟨inputHash, hhash, key, hkey, hid⟩ := h
  obtain ⟨digest, hdigest, hr⟩ := stepIdOf_eq_ok haddr.id
  obtain ⟨digest', hdigest', hr'⟩ := stepIdOf_eq_ok hid
  obtain rfl : digest = digest' := by
    rw [hr] at hr'
    simpa using hr'
  have hrun := hsha.stored_eq hdigest hdigest'
  have hkeys := hsha.stored_eq haddr.key (by
    have hsame := lookup_of_stored_eq hrun "key"
    simp [lastOf, lookup] at hsame
    exact hsame ▸ hkey)
  have hrunId := lookup_of_stored_eq hrun "run_id"
  have hkind := lookup_of_stored_eq hkeys "kind"
  have hname := lookup_of_stored_eq hkeys "name"
  have hsafety := lookup_of_stored_eq hkeys "safety"
  have hsequence := lookup_of_stored_eq hkeys "sequence"
  have hinput := lookup_of_stored_eq hkeys "input_hash"
  simp [lastOf, lookup] at hrunId hkind hname hsafety hsequence hinput
  refine ⟨hrunId, hkind, hname, ?_, SafetyClass.value_injective hsafety, ?_⟩
  · obtain ⟨column, hcolumn, hsame⟩ := sha256Hex_eq_ok hhash
    rw [haddr.input, hsame] at hinput
    rw [JsonColumn.value_eq (hsha hinput)]
    exact (canonicalJson_eq_ok hcolumn).2.1
  · cases hseq : r.sequence with
    | none => simp [hseq, optInt] at hsequence
    | some n => simpa [hseq, optInt] using hsequence

end Journal

end Polaris
