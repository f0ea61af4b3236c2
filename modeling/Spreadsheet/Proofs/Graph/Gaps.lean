import Spreadsheet.Proofs.Graph.Gist

/-!
Gaps. A gap is an edge from a dirty vertex to a clean one. Marks stop at what is dirty already, so they do not get
across a gap any more. Edits make no gaps, though they leave those that are there.
-/

namespace Spreadsheet.Graph

variable {g g' : Graph} {i j k l : Slot} {p : Position} {X Y : Slot → Prop} {content : Vertex.Content}
  {d : Dependencies}

/-- An edge from a dirty vertex to a clean one. -/
structure Gap (g : Graph) (k l : Slot) : Prop where
  dirty : g.isDirty k = true
  edge : g.Edge k l
  clean : ¬g.isDirty l = true

/-- A graph is closed if it has no gaps. -/
theorem closed_iff : g.Closed ↔ ∀ k l, ¬g.Gap k l :=
  ⟨fun h k l hgap => hgap.clean (h k l hgap.dirty hgap.edge),
    fun h k l hk hkl => by_contra fun hl => h k l ⟨hk, hkl, hl⟩⟩

theorem isDirty_eq_gist (g : Graph) (i : Slot) : g.isDirty i = (g.gist? i).any Vertex.dirty := by
  unfold isDirty gist?
  cases g.vertex? i <;> rfl

/-- Marks get everywhere but across gaps. -/
theorem Gap.of_markAll {stack : List Slot} (hlinked : g.Linked) (h : (g.markAll stack).Gap k l) : g.Gap k l := by
  have hmarks := marks_markAll g stack
  refine (closed_markAll hlinked.not_dead (fun a b ha hab => ?_) h.dirty (hmarks.edge_iff.1 h.edge)).resolve_left h.clean
  by_cases hb : g.isDirty b = true
  · exact .inl hb
  · exact .inr (.inr ⟨ha, hab, hb⟩)

theorem Gap.of_markEach {is : List Slot} (hlinked : g.Linked) (h : (g.markEach is).Gap k l) : g.Gap k l := by
  induction is generalizing g with
  | nil => exact h
  | cons i is ih => exact .of_markAll hlinked (ih ((marks_markAll g [i]).linked hlinked) h)

/-- All gaps of the second graph, other than those before some vertices, are gaps of the first one, and the vertices
that they keep marks from are what they were. -/
def TightensBut (X : Slot → Prop) (g g' : Graph) : Prop :=
  ∀ k l, ¬X l → g'.Gap k l → g.Gap k l ∧ g'.gist? l = g.gist? l

/-- All gaps of the second graph are gaps of the first one. -/
def Tightens (g g' : Graph) : Prop := TightensBut (fun _ => False) g g'

namespace TightensBut

theorem refl (X : Slot → Prop) (g : Graph) : TightensBut X g g := fun _ _ _ hgap => ⟨hgap, rfl⟩

theorem trans {g₁ g₂ g₃ : Graph} (h : TightensBut X g₁ g₂) (h' : TightensBut X g₂ g₃) : TightensBut X g₁ g₃ := by
  intro k l hl hgap
  obtain ⟨hmid, hsame'⟩ := h' k l hl hgap
  obtain ⟨hfirst, hsame⟩ := h k l hl hmid
  exact ⟨hfirst, hsame'.trans hsame⟩

theorem mono (h : TightensBut X g g') (hXY : ∀ l, X l → Y l) : TightensBut Y g g' :=
  fun k l hl => h k l fun hX => hl (hXY l hX)

/-- Changes that make no vertex dirty and add no edges from dirty vertices. -/
theorem of_edges (h : g.WellFormed) (h' : g'.WellFormed) (hdirty : ∀ k, g'.isDirty k = true → g.isDirty k = true)
    (hedge : ∀ k l, ¬X l → g.isDirty k = true → g'.Edge k l → g.Edge k l)
    (hgist : ∀ l, ¬X l → g.Live l → g'.Live l → g'.gist? l = g.gist? l) : TightensBut X g g' := by
  intro k l hl hgap
  have hk := hdirty k hgap.dirty
  have he := hedge k l hl hk hgap.edge
  have hsame := hgist l hl (h.linked.edge_live he).2 (h'.linked.edge_live hgap.edge).2
  refine ⟨⟨hk, he, ?_⟩, hsame⟩
  rw [isDirty_eq_gist, ← hsame, ← isDirty_eq_gist]
  exact hgap.clean

/-- New vertices are clean. -/
theorem ensure (h : g.WellFormed) (X : Slot → Prop) (p : Position) : TightensBut X g (g.ensure p).2 := by
  have hext := h.extends_ensure 0 p
  refine of_edges h (h.ensure p) (fun k hk => hext.isDirty_iff.1 hk) (fun k l _ hk he => ?_)
    fun l _ hl _ => gist?_of_core? (hext.core l hl)
  exact (h.edge_new_ensure he).resolve_right fun hdead => hdead (live_of_isDirty hk)

/-- Only the vertex that gets an edge may be left clean behind a dirty one. -/
theorem connect (h : g.WellFormed) (i j : Slot) : TightensBut (· = j) g (g.connect i j) := by
  have hcore := sameCore_connect g i j
  refine of_edges h (h.connect i j) (fun k hk => by rwa [← hcore.isDirty]) (fun k l hl _ he => ?_)
    fun l _ _ _ => gist?_of_core? (hcore.core l)
  exact (edge_connect.1 he).resolve_right fun hnew => hl hnew.2.2

theorem clearInputs (h : g.WellFormed) (i : Slot) : TightensBut (· = i) g (g.clearInputs i) := by
  refine of_edges h (h.clearInputs i) (fun k hk => by rwa [← isDirty_clearInputs])
    (fun k l _ _ he => ((edge_clearInputs h.linked).1 he).1) fun l hl _ _ => gist?_of_core? ?_
  rw [core?_clearInputs, if_neg (Ne.symm hl)]

/-- What a vertex is to calculate may change. -/
theorem assign (h : g.WellFormed) (i : Slot) (content : Vertex.Content) :
    TightensBut (· = i) g (g.modify i (assigned content)) :=
  of_edges h (h.modify (f := assigned content) (fun _ => rfl) (fun _ => rfl) fun _ => rfl)
    (fun k hk => by rwa [← isDirty_modify (f := assigned content) fun _ => rfl])
    (fun k l _ _ he => (edge_modify (f := assigned content) fun _ => rfl).1 he)
    fun l hl _ _ => gist?_modify_of_ne g _ (Ne.symm hl)

theorem remove (h : g.WellFormed) (hp : g.slot? p = some i) (X : Slot → Prop) : TightensBut X g (g.remove p) := by
  refine of_edges h (h.remove p) (fun k hk => ((isDirty_remove hp k).1 hk).1)
    (fun k l _ _ he => ((h.edge_remove hp).1 he).1) fun l _ _ hl => gist?_of_core? ?_
  rw [core?_remove hp, if_neg (Ne.symm ((live_remove hp).1 hl).2)]

/-- Replacing what a vertex reads may leave it clean behind dirty ones. -/
theorem reread (h : g.WellFormed) (i : Slot) (d : Dependencies) : TightensBut (· = i) g (g.reread i d) := by
  refine of_edges h (h.reread i d) (fun k hk => (isDirty_reread h i d k).1 hk) (fun k l hl hk he => ?_) fun l hl hlive _ => ?_
  · exact ((edge_new_reread h he).resolve_right fun hnew => hnew.elim hl fun hdead => hdead (live_of_isDirty hk))
  · have hcore := (h.extends_reading i d).core l (live_clearInputs.2 hlive)
    rw [core?_clearInputs, if_neg (Ne.symm hl)] at hcore
    exact (gist?_modify_of_ne _ (told d) (Ne.symm hl)).trans (gist?_of_core? hcore)

/-- Only the members of an array may be left clean behind the first of them. -/
theorem connectMembers (h : g.WellFormed) (i : Slot) (ps : List Position) :
    TightensBut (· ∈ (g.connectMembers i ps).1) g (g.connectMembers i ps).2 := by
  have hrun (g' : Graph) (hwell : g'.WellFormed) (js : List Slot) (rest : List Position)
      (hg : TightensBut (· ∈ js) g g') :
      TightensBut (· ∈ (rest.foldl (joinNext i) (js, g')).1) g (rest.foldl (joinNext i) (js, g')).2 := by
    induction rest generalizing g' js with
    | nil => exact hg
    | cons q rest ih =>
      have hensure := (hg.trans (.ensure hwell _ q)).mono fun l hl =>
        (List.mem_append_left [(g'.ensure q).1] hl : l ∈ js ++ [(g'.ensure q).1])
      have hconnect := (connect (hwell.ensure q) i (g'.ensure q).1).mono fun l hl =>
        (List.mem_append_right js (List.mem_singleton.2 hl) : l ∈ js ++ [(g'.ensure q).1])
      exact ih _ ((hwell.ensure q).connect i _) _ (hensure.trans hconnect)
  rw [connectMembers_eq]
  exact hrun g h [] ps ((refl _ g).mono fun _ hl => hl)

/-- Marking makes no gaps, and leaves none before the vertices that it starts from. -/
theorem markEach (h : TightensBut X g g') (hlinked : g'.Linked) {is : List Slot} (hX : ∀ l, X l → l ∈ is) :
    Tightens g (g'.markEach is) := by
  intro k l _ hgap
  have hmarks := marks_markEach g' is
  have hlive := ((hmarks.linked hlinked).edge_live hgap.edge).2
  have hl : ¬X l := fun hc => hgap.clean (isDirty_markEach (hX l hc) (hmarks.live_iff.1 hlive))
  obtain ⟨hfirst, hsame⟩ := h k l hl (.of_markEach hlinked hgap)
  refine ⟨hfirst, Eq.trans ?_ hsame⟩
  rcases hmarks.vertex l with hkept | ⟨v, -, hmark⟩
  · rw [gist?, gist?, hkept]
  · exact absurd (isDirty_iff.2 ⟨_, hmark, rfl⟩) hgap.clean

end TightensBut

namespace Tightens

theorem trans {g₁ g₂ g₃ : Graph} (h : Tightens g₁ g₂) (h' : Tightens g₂ g₃) : Tightens g₁ g₃ := TightensBut.trans h h'

theorem closed (h : Tightens g g') (hclosed : g.Closed) : g'.Closed :=
  closed_iff.2 fun k l hgap => closed_iff.1 hclosed k l (h k l id hgap).1

theorem markEach (h : g.Linked) (is : List Slot) : Tightens g (g.markEach is) :=
  TightensBut.markEach (.refl (fun _ => False) g) h fun _ => False.elim

theorem setDirty (h : g.Linked) (p : Position) : Tightens g (g.setDirty p) := by
  rw [setDirty_eq]
  exact (markEach h _).trans (markEach ((marks_markEach g _).linked h) _)

theorem markVolatile (h : g.Linked) : Tightens g g.markVolatile := fun k l hl hgap =>
  have hmark := markEach (g := { g with volatiles := [] }) h g.volatiles k l hl hgap
  ⟨⟨hmark.1.dirty, hmark.1.edge, hmark.1.clean⟩, hmark.2⟩

/-- A vertex that loses its formula reads nothing any more. -/
theorem demote (h : g.WellFormed) (p : Position) : Tightens g (g.demote p) := by
  obtain ⟨-, hsame⟩ | ⟨i, hp, hcases⟩ := demote_cases g p
  · rw [hsame]
    exact .refl _ g
  have hedge {k l : Slot} (he : (g.emptied i).Edge k l) : l ≠ i :=
    ((edge_clearInputs h.linked).1 ((edge_modify (f := assigned .value) fun _ => rfl).1 he)).2
  have hemptied : Tightens g (g.emptied i) := fun k l _ hgap =>
    (TightensBut.clearInputs h i).trans (.assign (h.clearInputs i) i .value) k l (hedge hgap.edge) hgap
  rcases hcases with hsame | ⟨-, hsame⟩ <;> rw [hsame]
  · exact hemptied
  · exact hemptied.trans (.remove (h.emptied i) ((slot?_emptied g i p).trans hp) _)

/-- The vertices of a new formula are all marked. -/
theorem install (h : g.Firm) (p : Position) (content : Vertex.Content) (d : Dependencies) :
    Tightens g (g.install p content d) := by
  have hwell := h.toWellFormed
  have hgiven := ((h.ensure p).assign (g.ensure p).1 content).toWellFormed
  have hstaffed := (h.staffed p content).firm.toWellFormed
  let X (l : Slot) : Prop := l ∈ (g.ensure p).1 :: (g.staffed p content).1
  have hself (l : Slot) (hl : l = (g.ensure p).1) : X l := List.mem_cons.2 (.inl hl)
  have hassign : TightensBut X g (g.given p content) :=
    (TightensBut.ensure hwell X p).trans ((TightensBut.assign (hwell.ensure p) _ content).mono hself)
  have hconnect : TightensBut X g (g.staffed p content).2 :=
    hassign.trans ((TightensBut.connectMembers hgiven _ _).mono fun _ hl => List.mem_cons_of_mem _ hl)
  have hreread : TightensBut X g ((g.staffed p content).2.reread (g.ensure p).1 d) :=
    hconnect.trans ((TightensBut.reread hstaffed _ d).mono hself)
  rw [install_eq]
  exact hreread.markEach (hstaffed.reread _ d).linked fun _ => id

end Tightens

/-! ### Passes -/

namespace Pass

variable {σ : Type} {h : Handler σ} {limit : Nat} {p p' : Pass σ} {moments : List (Pass σ × Slot)} {look : Look}

/-- What a vertex has come to, if it is there. -/
def result? (g : Graph) (i : Slot) : Option Value := (g.vertex? i).map Vertex.result

theorem result?_of_gist? (h : g'.gist? i = g.gist? i) : result? g' i = result? g i := by
  have hresult (g : Graph) : result? g i = (g.gist? i).map Vertex.result := by
    rw [result?, gist?, Option.map_map]
    rfl
  rw [hresult, hresult, h]

/-- One of the moments is that at which the vertex fails since it is on a cycle. -/
def FailsOnCycle (h : Handler σ) (limit : Nat) (moments : List (Pass σ × Slot)) (l : Slot) : Prop :=
  ∃ p, (p, l) ∈ moments ∧ Pass.look h limit p l = .cycle

theorem Looked.result?_cycle (hl : Looked h limit p i .cycle p') : result? p'.graph i = some failure := by
  cases hl with
  | cycle hv =>
    obtain ⟨b, hb⟩ := (upToCycles_refreshCycles p.graph).vertex_of' hv
    obtain ⟨c, hc⟩ := (upToCycles_charted p.graph i).vertex_of hb
    exact congrArg (Option.map Vertex.result) ((updates_modify _ i (keeps_settled failure)).vertex_self hc)

/-- Clean vertices keep what they are. -/
theorem Looked.gist?_of_clean (hl : Looked h limit p i look p') (hwell : p.graph.WellFormed) (hlive : p.graph.Live k)
    (hclean : ¬p.graph.isDirty k = true) : p'.graph.gist? k = p.graph.gist? k := by
  by_cases hki : k = i
  · subst hki
    obtain rfl : look = .idle := by_contra fun hc => hclean (hl.isDirty hc)
    cases hl with
    | idle => exact (upToCycles_refreshCycles p.graph).gist? k
  · exact hl.gist?_of_ne hwell hki hlive

/-- A step makes a gap only where a vertex on a cycle fails although an input is dirty. -/
theorem Looked.gap (hl : Looked h limit p i look p') (hwell : p.graph.WellFormed) (hknown : p.graph.CyclesKnown)
    (hgap : p'.graph.Gap k l) : p.graph.Gap k l ∧ result? p'.graph l = result? p.graph l ∨ look = .cycle ∧ l = i := by
  have hs := hl.stepped hwell hknown
  have hk := ((hs.dirty k).1 hgap.dirty).1
  have he : p.graph.Edge k l := by
    rcases hs.edge_new k l hgap.edge with he | ⟨hre, rfl | hdead⟩
    · exact he
    · refine absurd ((hs.dirty l).2 ⟨hl.isDirty ?_, fun hc => ?_⟩) hgap.clean
      · rw [hre]
        exact Look.noConfusion
      · rw [hre] at hc
        cases hc.2
    · exact absurd (live_of_isDirty hk) hdead
  by_cases hd : p.graph.isDirty l = true
  · -- a vertex that is settled otherwise has no dirty input
    obtain ⟨rfl, hsettles⟩ : l = i ∧ look.settles = true := by_contra fun hc => hgap.clean ((hs.dirty l).2 ⟨hd, hc⟩)
    refine .inr ⟨by_contra fun hcycle => ?_, rfl⟩
    refine hl.inputs_clean ?_ ((hwell.linked k l).1 he) hk
    cases look <;> simp_all [Look.settles]
  · exact .inl ⟨⟨hk, he, hd⟩, result?_of_gist? (hl.gist?_of_clean hwell (hwell.linked.edge_live he).2 hd)⟩

/-- Gaps that a pass makes stand before vertices that fail on cycles and show it. -/
theorem Leads.gap (hl : Leads h limit p moments p') (hu : Underway p) (hgap : p'.graph.Gap k l) :
    p.graph.Gap k l ∧ result? p'.graph l = result? p.graph l ∨
      FailsOnCycle h limit moments l ∧ result? p'.graph l = some failure := by
  induction hl with
  | stop => exact .inl ⟨hgap, rfl⟩
  | @look p p' i rest moments hq hrest ih =>
    have hstep := looked_step (p := p.taken rest) hu.cycles h limit i
    rcases ih (hu.step hq h limit) hgap with ⟨hmid, hsame⟩ | ⟨⟨q, hmem, hlook⟩, hresult⟩
    · rcases hstep.gap hu.wellFormed hu.cycles hmid with ⟨hfirst, hsame'⟩ | ⟨hcycle, rfl⟩
      · exact .inl ⟨hfirst, hsame.trans hsame'⟩
      · rw [hcycle] at hstep
        exact .inr ⟨⟨_, List.mem_cons_self, hcycle⟩, hsame.trans hstep.result?_cycle⟩
    · exact .inr ⟨⟨q, List.mem_cons_of_mem _ hmem, hlook⟩, hresult⟩

end Pass

end Spreadsheet.Graph
