import Spreadsheet.Proofs.Sheet.Carried

/-!
The last calculations of formulas. What the cells of a clean formula show and what it reads stays the same while other
cells are edited, and while a pass deals with other vertices, unless the formula comes to be on a cycle or reads a
value that is on one. So a clean formula has failed, or it has been calculated at some time: then its vertex notes
whether the formula was volatile, and its cells show what it came to. This holds whatever has been done to a sheet, and
wherever passes have been cut short.
-/

namespace Spreadsheet.Sheet

open Spreadsheet.Graph

variable {s s' : Sheet} {g' : Graph} {q r : Position} {c f f' : Profile} {v : Value} {d : Dependencies}
  {uncut : Prop}

/-- What matters to the clean formula of a cell is in the second sheet as in the first, where `uncut` holds, and the
second sheet is no smaller. -/
structure Undisturbed (uncut : Prop) (s s' : Sheet) (q : Position) (c : Profile) : Prop where
  environment : ∃ t, s'.toEnvironment = s.timed t
  spans : s.store.Spans s'.store
  cyclic : uncut → s.graph.CyclicAt q → s'.graph.CyclicAt q
  bypassed : uncut → (s.graph.CyclicAt q → s.graph.Bypassed q) → s'.graph.CyclicAt q → s'.graph.Bypassed q
  written : uncut → s.WrittenCycle s'.graph.contentAt q → s.WrittenCycle s.graph.contentAt q
  reads : uncut → s.graph.ReadsCyclicValue q → s'.graph.ReadsCyclicValue q
  cells : uncut → s'.graph.CyclicAt q ∨ s'.graph.ReadsCyclicValue q ∨
    (∀ x, c.content.Fills q x → s'.store.read x = s.store.read x) ∧
      ∀ x, c.dependencies.Mentions x → s.store.AgreeAt s'.store x

namespace Undisturbed

/-- Nothing but the time, random numbers and what does not matter to arrows has changed. -/
theorem of_same (henv : ∃ t, s'.toEnvironment = s.timed t) (hstore : s'.store = s.store)
    (harrow : s'.graph.Arrow = s.graph.Arrow) (hcontent : s'.graph.contentAt = s.graph.contentAt) :
    Undisturbed uncut s s' q c := by
  have hcyclic : s'.graph.CyclicAt = s.graph.CyclicAt := by
    funext x
    rw [CyclicAt, CyclicAt, harrow]
  refine ⟨henv, ?_, fun _ hc => hcyclic ▸ hc, fun _ hb hc => ?_, fun _ hw => hcontent ▸ hw, fun _ hr => ?_, fun _ => ?_⟩
  · rw [hstore]
    exact .refl _
  · rw [Bypassed, harrow]
    exact hb (hcyclic ▸ hc)
  · rw [ReadsCyclicValue, harrow, hcontent, hcyclic]
    exact hr
  · rw [hstore]
    exact .inr (.inr ⟨fun _ _ => rfl, fun x _ => .refl _ x⟩)

/-- What is found out about cycles does not matter. -/
theorem of_upToCycles (hup : UpToCycles s.graph g') : Undisturbed uncut s { s with graph := g' } q c :=
  of_same ⟨s.clock, rfl⟩ rfl hup.samePlan.arrow_eq (funext hup.samePlan.contentAt)

end Undisturbed

/-! ### Edits -/

/-- A clean formula has not been touched by an edit. -/
theorem Amends.undisturbed (h : Amends uncut s s') (hs : s.Kept uncut) (hspans : s.store.Spans s'.store)
    (hc : s'.graph.profileAt? q = some c) (hclean : c.dirty = false) (he : c.content.expression? ≠ none) :
    Undisturbed uncut s s' q c := by
  obtain ⟨P, hedit, hclosed, hP⟩ := h
  have hq : ¬P q := by
    intro hPq
    obtain ⟨e, he⟩ := Option.ne_none_iff_exists'.1 he
    rw [((hP q hPq).informed c e hc he).1] at hclean
    cases hclean
  have hold : ∃ c₀, s.graph.profileAt? q = some c₀ ∧ c.content = c₀.content := by
    rcases hedit.reworked.profile_cases hq hc with ⟨c₀, hc₀, hcontent, -⟩ | ⟨-, hcontent, -⟩
    · exact ⟨c₀, hc₀, hcontent⟩
    · rw [hcontent] at he
      exact absurd rfl he
  obtain ⟨c₀, hc₀, hcontent⟩ := hold
  have htold (hu : uncut) (x : Position) (hx : P x) : s'.graph.Told x := (hP x hx).told hu
  have hunaffected : Unaffected P s.graph s'.graph q := by
    refine ⟨hq, ?_, not_dirtyAt_of_clean hc hclean⟩
    rw [hc₀]
    exact Option.some_ne_none c₀
  have hwell := hs.firm.toWellFormed
  have hfaithful := hedit.faithful hs.faithful hclosed hP
  have hcyclic (hu : uncut) := hedit.reworked.cyclicAt_iff hwell (hedit.orderly hu) (htold hu) hunaffected
  refine ⟨⟨s.clock, hedit.environment⟩, hspans, fun hu => (hcyclic hu).2, fun hu hb hcycle => ?_, fun hu hw => ?_,
    fun hu => hedit.reworked.readsCyclicValue hwell (hedit.orderly hu) (htold hu) hunaffected, fun hu => ?_⟩
  · exact hedit.reworked.bypassed hwell (hedit.orderly hu) (htold hu) hunaffected (hb ((hcyclic hu).1 hcycle))
  · have hinformed := hfaithful.informed
    rw [hedit.environment] at hinformed
    exact hw.of_reworked hedit.reworked hwell (hedit.orderly hu) hfaithful.arrayed hinformed (htold hu) hunaffected
  · refine .inr (.inr ⟨fun x hx => ?_, fun x hx => ?_⟩)
    · rw [hcontent, ← contentAt_of_profileAt? hc₀] at hx
      exact Store.read_eq_of_cell? (hedit.cell x (Edited.not_of_fills hs.faithful hclosed hq hx))
    · refine Store.agreeAt_of_cell? (hedit.cell x fun hPx => ?_)
      exact hunaffected.2.2 ⟨c, hc, (htold hu x hPx).mentions q c hc hx⟩

/-! ### Steps of a pass -/

/-- A clean formula is left alone when another vertex, which has been dirty, is settled. -/
theorem undisturbed_settle (h : uncut → s.Midway) (henv : s'.toEnvironment = s.toEnvironment)
    (hspans : s.store.Spans s'.store) (hg : SettledAt r f f' s.graph s'.graph) (hd : f.dirty = true)
    (hstore : Store.Delivered r f.content v s.store s'.store) (hqr : q ≠ r) (hc : s.graph.profileAt? q = some c)
    (hclean : c.dirty = false) : Undisturbed uncut s s' q c := by
  have hcontent : s'.graph.contentAt = s.graph.contentAt := funext hg.contentAt
  refine ⟨⟨s.clock, henv⟩, hspans, fun _ => hg.cyclicAt_iff.2, fun _ hb hcycle => ?_, fun _ hw => hcontent ▸ hw,
    fun _ => hg.readsCyclicValue_iff.2, fun hu => ?_⟩
  · exact hg.bypassed_iff.2 (hb (hg.cyclicAt_iff.1 hcycle))
  · obtain ⟨hread, ⟨hcycle, -⟩ | hreads | hagree⟩ := (h hu).apart hg hd hstore hqr hc hclean
    · exact .inl (hg.cyclicAt_iff.2 hcycle)
    · exact .inr (.inl (hg.readsCyclicValue_iff.2 hreads))
    · exact .inr (.inr ⟨hread, hagree⟩)

/-- A clean formula is left alone when the dependencies of another vertex, which is dirty and on no cycle, are
replaced. -/
theorem undisturbed_rewire (h : uncut → s.Midway) (henv : s'.toEnvironment = s.toEnvironment)
    (hg : RewiredAt r f d s.graph s'.graph) (hd : f.dirty = true) (hstore : s'.store = s.store)
    (hacyclic : ¬s.graph.CyclicAt r) (hqr : q ≠ r) (hc : s.graph.profileAt? q = some c) (hclean : c.dirty = false) :
    Undisturbed uncut s s' q c := by
  have hcontent : s'.graph.contentAt = s.graph.contentAt := funext hg.contentAt
  refine ⟨⟨s.clock, henv⟩, ?_, fun _ => hg.cyclicAt hacyclic,
    fun hu hb hcycle => (h hu).bypassed_rewire hg hd hacyclic hc hclean hb hcycle, fun _ hw => hcontent ▸ hw,
    fun _ hr => hg.readsCyclicValue hacyclic hr hqr, fun _ => ?_⟩ <;> rw [hstore]
  · exact .refl _
  · exact .inr (.inr ⟨fun _ _ => rfl, fun x _ => .refl _ x⟩)

end Spreadsheet.Sheet

/-! ### Last calculations -/

namespace Spreadsheet

open Spreadsheet.Graph

namespace Sheet

variable {s s' : Sheet} {i k : Slot} {c : Vertex} {e : Expression} {σ floor : Store} {t : Clock}
  {m : Simulation.Model} {uncut : Prop}

/-- The formula of a vertex has last been calculated with the cells `σ` of a sheet that was no smaller than `floor`.
Where `uncut` holds, the result and all that has been read stay the same, unless the vertex is on a cycle or reads a
value that is on one. -/
structure Calculation (uncut : Prop) (floor : Store) (s : Sheet) (c : Vertex) (e : Expression) (σ : Store) (t : Clock)
    (m : Simulation.Model) : Prop where
  limit : c.rebuilds ≤ s.settings.limits.rebuilds
  volatile : c.volatile = (e.calculate ((s.timed t).scope σ c.position) m).volatile
  covered : ∀ a ∈ (e.calculate ((s.timed t).scope σ c.position) m).areas, c.dependencies.covers a = true
  spans : floor.Spans σ ∧ σ.Spans s.store
  bypassed : uncut → s.graph.CyclicAt c.position → s.graph.Bypassed c.position
  written : uncut → ¬s.WrittenCycle s.graph.contentAt c.position
  value : uncut → s.graph.CyclicAt c.position ∨ s.graph.ReadsCyclicValue c.position ∨
    s.store.Shows c.position c.content (e.calculate ((s.timed t).scope σ c.position) m).value ∧
      ∀ x, c.dependencies.Mentions x → σ.AgreeAt s.store x

/-- A vertex has failed: it is on a cycle, or its dependencies have been replaced too often. -/
structure Failed (uncut : Prop) (s : Sheet) (c : Vertex) : Prop where
  result : c.result = Pass.failure
  cause : uncut → s.settings.limits.rebuilds < c.rebuilds ∨ s.graph.CyclicAt c.position

theorem Calculation.undisturbed (h : Calculation uncut floor s c e σ t m)
    (hu : Undisturbed uncut s s' c.position c.profile) : Calculation uncut floor s' c e σ t m := by
  obtain ⟨clock, henv⟩ := hu.environment
  have htimed : s'.timed t = s.timed t := by
    rw [henv]
    rfl
  refine ⟨by rw [henv]; exact h.limit, by rw [htimed]; exact h.volatile, by rw [htimed]; exact h.covered,
    ⟨h.spans.1, h.spans.2.trans hu.spans⟩, fun hc => hu.bypassed hc (h.bypassed hc), fun hc hw => h.written hc ?_,
    fun hc => ?_⟩
  · rw [henv] at hw
    exact hu.written hc hw
  · rw [htimed]
    rcases h.value hc with hcycle | hreads | ⟨hshows, hagree⟩
    · exact .inl (hu.cyclic hc hcycle)
    · exact .inr (.inl (hu.reads hc hreads))
    · refine (hu.cells hc).imp_right (.imp_right fun ⟨hread, hsame⟩ => ⟨hshows.congr hread, fun x hx => ?_⟩)
      exact (hagree x hx).trans (hsame x hx)

theorem Failed.undisturbed (h : Failed uncut s c) (hu : Undisturbed uncut s s' c.position c.profile) :
    Failed uncut s' c := by
  obtain ⟨clock, henv⟩ := hu.environment
  refine ⟨h.result, fun hc => (h.cause hc).imp (fun hlt => ?_) (hu.cyclic hc)⟩
  rw [henv]
  exact hlt

/-- What is known of a formula that is left alone. -/
theorem record_undisturbed {listed listed' : Prop}
    (h : Failed uncut s c ∨ (∃ σ t m, Calculation uncut floor s c e σ t m) ∧ listed)
    (hu : Undisturbed uncut s s' c.position c.profile) (hlisted : listed → listed') :
    Failed uncut s' c ∨ (∃ σ t m, Calculation uncut floor s' c e σ t m) ∧ listed' := by
  rcases h with hfailed | ⟨⟨σ, t, m, hcalc⟩, hl⟩
  · exact .inl (hfailed.undisturbed hu)
  · exact .inr ⟨⟨σ, t, m, hcalc.undisturbed hu⟩, hlisted hl⟩

/-- What is known of the last calculation of the formula in a slot, if it is clean. -/
def RecordedAt (uncut : Prop) (floor : Store) (s : Sheet) (k : Slot) : Prop :=
  ∀ c e, s.graph.gist? k = some c → c.content.expression? = some e → c.dirty = false →
    Failed uncut s c ∨ (∃ σ t m, Calculation uncut floor s c e σ t m) ∧ (c.volatile = true → k ∈ s.graph.volatiles)

theorem RecordedAt.weaken (h : RecordedAt uncut floor s k) : RecordedAt uncut {} s k := fun c e hc he hclean =>
  (h c e hc he hclean).imp_right fun ⟨⟨σ, t, m, hcalc⟩, hlisted⟩ =>
    ⟨⟨σ, t, m, { hcalc with spans := ⟨.empty σ, hcalc.spans.2⟩ }⟩, hlisted⟩

/-- What is known of the last calculations of all formulas between two passes. -/
def Recorded (uncut : Prop) (s : Sheet) : Prop := ∀ k, RecordedAt uncut {} s k

/-! ### What edits leave recorded -/

theorem ne_none_of_expression (he : c.content.expression? = some e) : c.content.expression? ≠ none := by
  rw [he]
  exact Option.some_ne_none e

theorem ne_value_of_expression (he : c.content.expression? = some e) : c.content ≠ .value := by
  intro hvalue
  rw [hvalue] at he
  cases he

/-- Clean formulas are left alone by edits. -/
theorem Recorded.amends (h : Recorded uncut s) (hs : s.Kept uncut) (hamends : Amends uncut s s')
    (hcarried : Carried s s') : Recorded uncut s' := by
  intro k c e hc he hclean
  have hremains : Remains s.graph s'.graph k c := by
    refine (hcarried.renews k c hc (ne_value_of_expression he)).resolve_right fun hnew => ?_
    rw [hclean] at hnew
    cases hnew.1
  have hprofile := (hamends.kept hs).firm.toWellFormed.profileAt?_of_gist? hc
  have hu := hamends.undisturbed hs hcarried.spans hprofile hclean (ne_none_of_expression he)
  exact record_undisturbed (h k c e (hremains.gist_of_clean hclean) he hclean) hu fun hlisted hv =>
    hremains.listed (hlisted hv)

/-- A sheet whose graph has been built anew has no clean formula. -/
theorem recorded_rebuild (s : Sheet) : Recorded uncut s.rebuild := by
  intro k c e hc he hclean
  rcases (renews_rebuild s).2 k c hc (ne_value_of_expression he) with hremains | ⟨hd, -⟩
  · obtain ⟨b, -, hgist⟩ := hremains.gist
    simp at hgist
  · rw [hd] at hclean
    cases hclean

/-- Time and random numbers do not matter. -/
theorem Recorded.elapse (h : Recorded uncut s) (clock : Clock) (model : Simulation.Model) :
    Recorded uncut { s with clock, model } := by
  intro k c e hc he hclean
  have hu : Undisturbed uncut s { s with clock, model } c.position c.profile :=
    .of_same ⟨clock, rfl⟩ rfl rfl rfl
  exact record_undisturbed (h k c e hc he hclean) hu id

end Sheet

end Spreadsheet
