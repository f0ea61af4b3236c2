import Spreadsheet.Proofs.Graph.Install
import Spreadsheet.Proofs.Graph.Settling

/-!
What vertices keep from one pass to the next. An edit gives formulas to some vertices, which are dirty then, and
takes them from others. All other formulas keep their results and their dependencies, and those that each pass is
to calculate anew stay listed. Vertices that are noted for the next pass are dirty, and none is noted twice. A pass
leaves the dependencies of a formula as they are, unless it replaces them; then they are what the last replacement has
made of them.
-/

namespace Spreadsheet

/-- What a vertex is and what it came to last, apart from what it is connected with and from what is known about
cycles. -/
def Vertex.gist (v : Vertex) : Vertex := { v with inputs := [], dependents := [], onCycle := none }

namespace Graph

variable {g g' : Graph} {i k : Slot} {p : Position} {c v : Vertex} {X : Slot → Prop} {content : Vertex.Content}
  {d : Dependencies} {N : Vertex.Content → Dependencies → Prop}

/-- What the vertex in a slot is and what it came to last. -/
def gist? (g : Graph) (i : Slot) : Option Vertex := (g.vertex? i).map Vertex.gist

theorem gist?_of_vertex? (hv : g.vertex? i = some v) : g.gist? i = some v.gist := by
  rw [gist?, hv, Option.map_some]

theorem gist?_eq_some_iff : g.gist? i = some c ↔ ∃ v, g.vertex? i = some v ∧ v.gist = c := Option.map_eq_some_iff

theorem gist?_eq_core (g : Graph) (i : Slot) : g.gist? i = (g.core? i).map Vertex.gist := by
  rw [gist?, core?, Option.map_map]
  rfl

@[simp] theorem gist?_empty (i : Slot) : gist? {} i = none := by
  simp [gist?, vertex?]

theorem gist?_of_core? (h : g'.core? k = g.core? k) : g'.gist? k = g.gist? k := by
  rw [gist?_eq_core, gist?_eq_core, h]

theorem gist?_modify_of_ne (g : Graph) (f : Vertex → Vertex) (hk : i ≠ k) : (g.modify i f).gist? k = g.gist? k := by
  rw [gist?, vertex?_modify, if_neg hk]
  rfl

/-- A vertex stands for its cell. -/
theorem WellFormed.slot?_of_gist? (h : g.WellFormed) (hc : g.gist? i = some c) : g.slot? c.position = some i := by
  obtain ⟨v, hv, rfl⟩ := gist?_eq_some_iff.1 hc
  change g.slot? v.position = some i
  exact h.slot?_position hv

theorem WellFormed.profileAt?_of_gist? (h : g.WellFormed) (hc : g.gist? i = some c) :
    g.profileAt? c.position = some c.profile := by
  obtain ⟨v, hv, rfl⟩ := gist?_eq_some_iff.1 hc
  change g.profileAt? v.position = some v.profile
  exact h.profileAt?_position hv

theorem volatiles_remove (hp : g.slot? p = some i) :
    (g.remove p).volatiles = g.volatiles.filter (· != i) := by
  rw [remove_of_slot? hp]
  exact congrArg (List.filter (· != i)) (sameFrame_detached g p i).volatiles

/-! ### Vertices that remain -/

/-- The vertex `c` of the second graph is one of the first, though it may have become dirty since. -/
structure Remains (g g' : Graph) (k : Slot) (c : Vertex) : Prop where
  gist : ∃ b, (b = true → c.dirty = true) ∧ g.gist? k = some { c with dirty := b }
  /-- It is still to be calculated by each pass. -/
  listed : k ∈ g.volatiles → k ∈ g'.volatiles

/-- The formulas of the second graph in all but some slots are those of the first. -/
def RemainsBut (X : Slot → Prop) (g g' : Graph) : Prop :=
  ∀ k c, ¬X k → g'.gist? k = some c → c.content ≠ .value → Remains g g' k c

theorem Remains.of_eq (hgist : g.gist? k = some c) (hlisted : k ∈ g.volatiles → k ∈ g'.volatiles) :
    Remains g g' k c :=
  ⟨⟨c.dirty, id, hgist⟩, hlisted⟩

/-- A clean vertex has not been changed at all. -/
theorem Remains.gist_of_clean (h : Remains g g' k c) (hclean : c.dirty = false) : g.gist? k = some c := by
  obtain ⟨b, hb, hgist⟩ := h.gist
  cases b with
  | false => rwa [← hclean] at hgist
  | true =>
    rw [hb rfl] at hclean
    cases hclean

namespace RemainsBut

theorem of_gist? (hgist : ∀ k, ¬X k → g'.gist? k = g.gist? k)
    (hlisted : ∀ k, ¬X k → k ∈ g.volatiles → k ∈ g'.volatiles) : RemainsBut X g g' :=
  fun k _ hk hc _ => .of_eq (hgist k hk ▸ hc) (hlisted k hk)

theorem refl (X : Slot → Prop) (g : Graph) : RemainsBut X g g := .of_gist? (fun _ _ => rfl) fun _ _ => id

theorem trans {g₁ g₂ g₃ : Graph} (h : RemainsBut X g₁ g₂) (h' : RemainsBut X g₂ g₃) : RemainsBut X g₁ g₃ := by
  intro k c hk hc hformula
  have hlast := h' k c hk hc hformula
  obtain ⟨b, hb, hmid⟩ := hlast.gist
  have hfirst := h k { c with dirty := b } hk hmid hformula
  obtain ⟨b', hb', hgist⟩ := hfirst.gist
  exact ⟨⟨b', fun hd => hb (hb' hd), hgist⟩, fun hl => hlast.listed (hfirst.listed hl)⟩

theorem of_marks (h : Marks g g') (X : Slot → Prop) : RemainsBut X g g' := by
  intro k c _ hc _
  refine ⟨?_, fun hl => by rwa [h.volatiles]⟩
  rcases h.vertex k with hsame | ⟨v, hv, hmark⟩
  · exact ⟨c.dirty, id, by rw [← hc, gist?, gist?, hsame]⟩
  · rw [gist?_of_vertex? hmark, Option.some.injEq] at hc
    subst hc
    exact ⟨v.dirty, fun _ => rfl, gist?_of_vertex? hv⟩

/-- New vertices calculate nothing. -/
theorem of_extends {j : Slot} (h : Extends j g g') (X : Slot → Prop) : RemainsBut X g g' := by
  intro k c _ hc hformula
  by_cases hk : g.Live k
  · refine .of_eq ?_ fun hl => by rwa [h.volatiles]
    rw [← gist?_of_core? (h.core k hk), hc]
  · obtain ⟨v, hv, rfl⟩ := gist?_eq_some_iff.1 hc
    obtain ⟨q, hq⟩ := h.fresh k hk ⟨v, hv⟩
    obtain ⟨w, hw, hcore⟩ := core?_eq_some_iff.1 hq
    rw [hv] at hw
    cases hw
    exact absurd (congrArg Vertex.content hcore) hformula

theorem of_modify (g : Graph) (i : Slot) (f : Vertex → Vertex) : RemainsBut (· = i) g (g.modify i f) :=
  .of_gist? (fun _ hk => gist?_modify_of_ne g f (Ne.symm hk)) fun _ _ hl => by rwa [volatiles_modify]

theorem of_clearInputs (g : Graph) (i : Slot) : RemainsBut (· = i) g (g.clearInputs i) := by
  refine .of_gist? (fun k hk => gist?_of_core? ?_) fun _ _ hl => by rwa [(sameFrame_clearInputs g i).volatiles]
  rw [core?_clearInputs, if_neg (Ne.symm hk)]

theorem of_remove (hp : g.slot? p = some i) : RemainsBut (· = i) g (g.remove p) := by
  refine .of_gist? (fun k hk => gist?_of_core? ?_) fun k hk hl => ?_
  · rw [core?_remove hp, if_neg (Ne.symm hk)]
  · rw [volatiles_remove hp]
    exact List.mem_filter.2 ⟨hl, bne_iff_ne.2 hk⟩

/-- Connecting the members of an array with its head makes new vertices only. -/
theorem of_connectMembers (h : g.WellFormed) (i : Slot) (ps : List Position) (X : Slot → Prop) :
    RemainsBut X g (g.connectMembers i ps).2 := by
  have hrun (g' : Graph) (hwell : g'.WellFormed) (js : List Slot) (rest : List Position) (hg : RemainsBut X g g') :
      RemainsBut X g (rest.foldl (joinNext i) (js, g')).2 := by
    induction rest generalizing g' js with
    | nil => exact hg
    | cons q rest ih =>
      have hensure := hg.trans (of_extends (hwell.extends_ensure 0 q) X)
      exact ih _ ((hwell.ensure q).connect i _) _ (hensure.trans (of_extends (extends_connect _ i _) X))
  rw [connectMembers_eq]
  exact hrun g h [] ps (.refl X g)

end RemainsBut

/-! ### Edits -/

/-- The formulas of the second graph are those of the first one, though they may have become dirty, or new ones, which
are dirty and have been told to read what `N` allows. -/
def Renews (N : Vertex.Content → Dependencies → Prop) (g g' : Graph) : Prop :=
  ∀ k c, g'.gist? k = some c → c.content ≠ .value →
    Remains g g' k c ∨ c.dirty = true ∧ N c.content c.dependencies

namespace Renews

theorem of_remainsBut (h : RemainsBut X g g')
    (hnew : ∀ k c, X k → g'.gist? k = some c → c.content ≠ .value → c.dirty = true ∧ N c.content c.dependencies) :
    Renews N g g' := by
  intro k c hc hformula
  by_cases hk : X k
  · exact .inr (hnew k c hk hc hformula)
  · exact .inl (h k c hk hc hformula)

theorem of_marks (h : Marks g g') : Renews N g g' :=
  of_remainsBut (.of_marks h fun _ => False) fun _ _ hk => hk.elim

theorem refl (g : Graph) : Renews N g g := of_marks (.refl g)

theorem trans {g₁ g₂ g₃ : Graph} (h : Renews N g₁ g₂) (h' : Renews N g₂ g₃) : Renews N g₁ g₃ := by
  intro k c hc hformula
  rcases h' k c hc hformula with hlast | hnew
  · obtain ⟨b, hb, hmid⟩ := hlast.gist
    rcases h k { c with dirty := b } hmid hformula with hfirst | ⟨hd, hnew⟩
    · obtain ⟨b', hb', hgist⟩ := hfirst.gist
      exact .inl ⟨⟨b', fun hd => hb (hb' hd), hgist⟩, fun hl => hlast.listed (hfirst.listed hl)⟩
    · exact .inr ⟨hb hd, hnew⟩
  · exact .inr hnew

theorem setDirty (g : Graph) (p : Position) : Renews N g (g.setDirty p) := of_marks (marks_setDirty g p)

theorem demote (g : Graph) (p : Position) : Renews N g (g.demote p) := by
  obtain ⟨-, hsame⟩ | ⟨i, hp, hcases⟩ := demote_cases g p
  · rw [hsame]
    exact .refl g
  have hemptied : RemainsBut (· = i) g (g.emptied i) :=
    (RemainsBut.of_clearInputs g i).trans (.of_modify _ i (assigned .value))
  have hvalue {c : Vertex} (hc : (g.emptied i).gist? i = some c) : c.content = .value := by
    obtain ⟨v, hv, rfl⟩ := gist?_eq_some_iff.1 hc
    rw [emptied, vertex?_modify, if_pos rfl] at hv
    obtain ⟨w, -, rfl⟩ := Option.map_eq_some_iff.1 hv
    rfl
  obtain hsame | ⟨-, hsame⟩ := hcases <;> rw [hsame]
  · exact of_remainsBut hemptied fun k c hk hc hformula => absurd (hvalue (hk ▸ hc)) hformula
  · have hp' : (g.emptied i).slot? p = some i := (slot?_emptied g i p).trans hp
    refine of_remainsBut (hemptied.trans (.of_remove hp')) fun k c hk hc _ => ?_
    rw [gist?_eq_core, core?_remove hp', if_pos hk.symm] at hc
    cases hc

theorem install (h : g.Firm) (hN : N content d) (p : Position) : Renews N g (g.install p content d) := by
  have hwell := h.toWellFormed
  have hjoin := h.staffed p content
  have hmarks := marks_markEach ((g.staffed p content).2.reread (g.ensure p).1 d)
    ((g.ensure p).1 :: (g.staffed p content).1)
  have hgiven : RemainsBut (· = (g.ensure p).1) g (g.given p content) :=
    (RemainsBut.of_extends (hwell.extends_ensure 0 p) _).trans (.of_modify _ _ (assigned content))
  have hstaffed : RemainsBut (· = (g.ensure p).1) g (g.staffed p content).2 :=
    hgiven.trans (.of_connectMembers ((h.ensure p).assign _ content).toWellFormed _ _ _)
  have hreread : RemainsBut (· = (g.ensure p).1) g ((g.staffed p content).2.reread (g.ensure p).1 d) := by
    refine (hstaffed.trans (.of_clearInputs _ _)).trans ?_
    exact (RemainsBut.of_extends (hjoin.firm.toWellFormed.extends_reading _ d) _).trans (.of_modify _ _ (told d))
  have hinstall : RemainsBut (· = (g.ensure p).1) g (g.install p content d) := by
    rw [install_eq]
    exact hreread.trans (.of_marks hmarks _)
  refine of_remainsBut hinstall fun k c hk hc _ => ?_
  have hslot : (g.install p content d).slot? p = some k := by
    rw [install_eq, hmarks.slot?, hk]
    exact slot?_reread hjoin.firm.toWellFormed hjoin.head _ d
  have hwell' := (h.install p content d).toWellFormed
  have hpos : c.position = p := by
    obtain ⟨v, hv, hpos⟩ := hwell'.vertex_of_slot? hslot
    rw [gist?_of_vertex? hv, Option.some.injEq] at hc
    rw [← hc, ← hpos]
    rfl
  obtain ⟨f, hf, hcontent, hdeps, hd⟩ := (h.installed p content d).self
  have hprofile := hwell'.profileAt?_of_gist? hc
  rw [hpos, hf, Option.some.injEq] at hprofile
  subst hprofile
  refine ⟨hd, ?_⟩
  rw [show c.content = content from hcontent, show c.dependencies = d from hdeps]
  exact hN

end Renews

/-! ### Steps of a pass -/

theorem UpToCycles.gist? (h : UpToCycles g g') (k : Slot) : g'.gist? k = g.gist? k := by
  obtain ⟨b, hb⟩ := h.vertex k
  rw [Graph.gist?, Graph.gist?, hb]
  cases g.vertex? k <;> rfl

namespace Updates

variable {f : Vertex → Vertex}

theorem gist?_of_ne (h : Updates i f g g') (hk : k ≠ i) : g'.gist? k = g.gist? k := by
  rw [Graph.gist?, Graph.gist?, h.vertex_of_ne hk]

theorem gist?_self (h : Updates i f g g') (hv : g.vertex? i = some v) : g'.gist? i = some (f v).gist :=
  gist?_of_vertex? (h.vertex_self hv)

end Updates

namespace Rewired

theorem gist?_of_ne (h : Rewired i d g g') (hk : k ≠ i) (hlive : g.Live k) : g'.gist? k = g.gist? k := by
  obtain ⟨v, hv⟩ := hlive
  obtain ⟨w, hw, hcore⟩ := h.vertex k v hv
  rw [if_neg hk] at hcore
  exact gist?_of_core? (by rw [core?, core?, hv, hw, Option.map_some, Option.map_some, hcore])

theorem gist?_self (h : Rewired i d g g') (hv : g.vertex? i = some v) :
    g'.gist? i = some { v.gist with dependencies := d } := by
  obtain ⟨w, hw, hcore⟩ := h.vertex i v hv
  rw [if_pos rfl] at hcore
  rw [gist?_of_vertex? hw]
  exact congrArg some (congrArg Vertex.gist hcore :)

theorem gist?_fresh (h : Rewired i d g g') (hdead : ¬g.Live k) (hlive : g'.Live k) :
    ∃ p, g'.gist? k = some { position := p } := by
  obtain ⟨p, hp⟩ := h.fresh k hdead hlive
  exact ⟨p, by rw [gist?_eq_core, hp]; rfl⟩

end Rewired

namespace Pass

variable {σ : Type} {h : Handler σ} {limit : Nat} {p p' : Pass σ} {look : Look}

theorem gist?_beginPass (g : Graph) (state : σ) (k : Slot) : (g.beginPass state).graph.gist? k =
    (g.gist? k).map fun c => if k ∈ g.marked then { c with rebuilds := 0 } else c := by
  rw [gist?, gist?, vertex?_beginPass, Option.map_map, Option.map_map]
  refine congrArg (Option.map · (g.vertex? k)) (funext fun v => ?_)
  simp only [Function.comp_apply]
  split <;> rfl

/-- The dependencies of the vertex that a pass looks at are replaced. -/
theorem rewired_retried (hwell : p.graph.WellFormed) (hready : p.Ready i v) (state : σ) (d : Dependencies) :
    Rewired i d (p.retried i state).graph ((p.retried i state).graph.rewire i d) := by
  have hchart := upToCycles_charted p.graph i
  have hcount := updates_retried p i state
  obtain ⟨b, hb⟩ := hchart.vertex_of ((upToCycles_refreshCycles p.graph).vertex_of' hready.vertex).choose_spec
  refine (hcount.wellFormed (hchart.wellFormed hwell)).rewired (isDirty_iff.2 ⟨_, hcount.vertex_self hb, ?_⟩) d
  exact hready.dirty

namespace Looked

/-- A step changes what is known about cycles only, or what one vertex holds, or it replaces dependencies. -/
theorem changes (hl : Looked h limit p i look p') (hwell : p.graph.WellFormed) :
    UpToCycles p.graph p'.graph ∨ (∃ f, Updates i f (p.graph.charted i) p'.graph) ∨
      look = .rewired ∧ ∃ d state g', Rewired i d (p.retried i state).graph g' ∧ p'.graph.vertex? = g'.vertex? := by
  by_cases hsettles : look.settles = true
  · obtain ⟨f, hu, -⟩ := hl.updates hsettles
    exact .inr (.inl ⟨f, hu⟩)
  · cases hl with
    | idle => exact .inl (upToCycles_refreshCycles p.graph)
    | waits => exact .inl (upToCycles_charted p.graph i)
    | @rewired v e d state hready => exact .inr (.inr ⟨rfl, d, state, _, rewired_retried hwell hready state d, rfl⟩)
    | _ => exact absurd rfl hsettles

/-- Other vertices keep what they are. -/
theorem gist?_of_ne (hl : Looked h limit p i look p') (hwell : p.graph.WellFormed) (hk : k ≠ i)
    (hlive : p.graph.Live k) : p'.graph.gist? k = p.graph.gist? k := by
  have hchart := upToCycles_charted p.graph i
  rcases hl.changes hwell with hup | ⟨f, hu⟩ | ⟨-, d, state, g', hre, hvertex⟩
  · exact hup.gist? k
  · rw [hu.gist?_of_ne hk, hchart.gist?]
  · have hcount := updates_retried p i state
    rw [gist?, hvertex, ← gist?, hre.gist?_of_ne hk (hcount.live_iff.2 (hchart.live_iff.2 hlive)), hcount.gist?_of_ne hk,
      hchart.gist?]

/-- New vertices calculate nothing. -/
theorem gist?_fresh (hl : Looked h limit p i look p') (hwell : p.graph.WellFormed) (hdead : ¬p.graph.Live k)
    (hlive : p'.graph.Live k) : ∃ q, p'.graph.gist? k = some { position := q } := by
  have hchart := upToCycles_charted p.graph i
  rcases hl.changes hwell with hup | ⟨f, hu⟩ | ⟨-, d, state, g', hre, hvertex⟩
  · exact absurd (hup.live_iff.1 hlive) hdead
  · exact absurd (hchart.live_iff.1 (hu.live_iff.1 hlive)) hdead
  · have hcount := updates_retried p i state
    rw [Live, hvertex] at hlive
    rw [gist?, hvertex]
    exact hre.gist?_fresh (fun hc => hdead (hchart.live_iff.1 (hcount.live_iff.1 hc))) hlive

/-- No vertex is listed for the next pass, unless it is volatile. -/
theorem volatiles (hl : Looked h limit p i look p') (hwell : p.graph.WellFormed) :
    p'.graph.volatiles = p.graph.volatiles ∨ look = .calculated ∧ p'.graph.volatiles = p.graph.volatiles ++ [i] := by
  have hchart : (p.graph.charted i).volatiles = p.graph.volatiles := (upToCycles_charted p.graph i).volatiles
  cases hl with
  | idle => exact .inl (upToCycles_refreshCycles p.graph).volatiles
  | waits => exact .inl hchart
  | cycle => exact .inl ((volatiles_modify _ i _).trans hchart)
  | read => exact .inl ((volatiles_modify _ i _).trans hchart)
  | @value v e x volatile =>
    have hnoted : ((noteVolatile (p.graph.charted i) i volatile).modify i (settled x)).volatiles =
        if volatile then p.graph.volatiles ++ [i] else p.graph.volatiles := by
      rw [volatiles_modify, noteVolatile, hchart]
    cases volatile with
    | false => exact .inl hnoted
    | true => exact .inr ⟨rfl, hnoted⟩
  | exhausted => exact .inl ((volatiles_modify _ i _).trans ((volatiles_modify _ i _).trans hchart))
  | @rewired v e d state hready =>
    exact .inl ((rewired_retried hwell hready state d).volatiles.trans ((volatiles_modify _ i _).trans hchart))

/-- Which other vertices are listed stays the same. -/
theorem mem_volatiles_of_ne (hl : Looked h limit p i look p') (hwell : p.graph.WellFormed) (hk : k ≠ i) :
    k ∈ p'.graph.volatiles ↔ k ∈ p.graph.volatiles := by
  rcases hl.volatiles hwell with hsame | ⟨-, hnoted⟩
  · rw [hsame]
  · rw [hnoted, List.mem_append, List.mem_singleton, or_iff_left hk]

end Looked

end Pass

end Graph

end Spreadsheet

/-! ### What is noted for the next pass -/

namespace Spreadsheet.Graph

variable {g g' : Graph} {i : Slot} {p : Position}

/-- Dirty vertices only are noted for the next pass, each of them once. -/
structure Neat (g : Graph) : Prop where
  dirty : ∀ k ∈ g.marked, g.isDirty k = true
  nodup : g.marked.Nodup

namespace Neat

/-- Changes that make no vertex clean and note no other ones. -/
theorem of_sublist (h : g.Neat) (hmarked : g'.marked.Sublist g.marked)
    (hdirty : ∀ k ∈ g'.marked, g.isDirty k = true → g'.isDirty k = true) : g'.Neat :=
  ⟨fun k hk => hdirty k hk (h.dirty k (hmarked.subset hk)), h.nodup.sublist hmarked⟩

theorem of_eq (h : g.Neat) (hmarked : g'.marked = g.marked) (hdirty : ∀ k, g.isDirty k = true → g'.isDirty k = true) :
    g'.Neat :=
  h.of_sublist (hmarked ▸ List.Sublist.refl _) fun k _ => hdirty k

theorem ensure (h : g.Neat) (hwell : g.WellFormed) (p : Position) : (g.ensure p).2.Neat :=
  have hext := hwell.extends_ensure 0 p
  h.of_eq hext.marked fun _ => hext.isDirty_iff.2

theorem connect (h : g.Neat) (i j : Slot) : (g.connect i j).Neat :=
  have hext := extends_connect g i j
  h.of_eq hext.marked fun _ => hext.isDirty_iff.2

theorem assign (h : g.Neat) (i : Slot) (content : Vertex.Content) : (g.modify i (assigned content)).Neat :=
  h.of_eq (marked_modify ..) fun k hk => by rwa [isDirty_modify (f := assigned content) fun _ => rfl]

theorem reread (h : g.Neat) (hwell : g.WellFormed) (i : Slot) (d : Dependencies) : (g.reread i d).Neat :=
  h.of_eq (marked_reread hwell i d) fun k => (isDirty_reread hwell i d k).2

theorem emptied (h : g.Neat) (i : Slot) : (g.emptied i).Neat := by
  have hclear : (g.clearInputs i).Neat :=
    h.of_eq (sameFrame_clearInputs g i).marked fun k hk => by rwa [isDirty_clearInputs]
  exact hclear.assign i .value

theorem remove (h : g.Neat) (hp : g.slot? p = some i) : (g.remove p).Neat := by
  refine h.of_sublist (marked_remove hp ▸ List.filter_sublist) fun k hk hd => (isDirty_remove hp k).2 ⟨hd, ?_⟩
  rw [marked_remove hp, List.mem_filter, bne_iff_ne] at hk
  exact hk.2

theorem connectMembers (h : g.Neat) (hwell : g.WellFormed) (i : Slot) (ps : List Position) :
    (g.connectMembers i ps).2.Neat := by
  have hrun (g' : Graph) (hwell : g'.WellFormed) (js : List Slot) (rest : List Position) (hg : g'.Neat) :
      (rest.foldl (joinNext i) (js, g')).2.Neat := by
    induction rest generalizing g' js with
    | nil => exact hg
    | cons q rest ih => exact ih _ ((hwell.ensure q).connect i _) _ ((hg.ensure hwell q).connect i _)
  rw [connectMembers_eq]
  exact hrun g hwell [] ps h

theorem markAll (h : g.Neat) (stack : List Slot) : (g.markAll stack).Neat := by
  fun_induction Graph.markAll g stack with
  | case1 => exact h
  | case2 g i rest hv ih => exact ih h
  | case3 g i rest v hv hd ih => exact ih h
  | case4 g i rest v hv hd hdec ih =>
    have hclean : ¬g.isDirty i = true := by rwa [isDirty_iff_of_vertex? hv]
    have hnodup : (g.marked ++ [i]).Nodup := by
      rw [← List.concat_eq_append]
      exact h.nodup.concat fun hi => hclean (h.dirty i hi)
    refine ih ⟨fun k hk => (isDirty_mark hv).2 ?_, hnodup⟩
    exact (List.mem_append.1 hk).imp (h.dirty k) List.mem_singleton.1

theorem markEach (h : g.Neat) (is : List Slot) : (g.markEach is).Neat := by
  induction is generalizing g with
  | nil => exact h
  | cons i is ih => exact ih (h.markAll [i])

theorem setDirty (h : g.Neat) (p : Position) : (g.setDirty p).Neat := by
  rw [setDirty_eq]
  exact (h.markEach _).markEach _

theorem demote (h : g.Neat) (p : Position) : (g.demote p).Neat := by
  obtain ⟨-, hsame⟩ | ⟨i, hp, hsame | ⟨-, hsame⟩⟩ := demote_cases g p <;> rw [hsame]
  · exact h
  · exact h.emptied i
  · exact (h.emptied i).remove ((slot?_emptied g i p).trans hp)

theorem install (h : g.Neat) (hfirm : g.Firm) (p : Position) (content : Vertex.Content) (d : Dependencies) :
    (g.install p content d).Neat := by
  have hgiven := (h.ensure hfirm.toWellFormed p).assign (g.ensure p).1 content
  have hstaffed := hgiven.connectMembers ((hfirm.ensure p).assign _ content).toWellFormed (g.ensure p).1
    (content.members.filter (· != p))
  rw [install_eq]
  exact (hstaffed.reread (hfirm.staffed p content).firm.toWellFormed _ d).markEach _

/-- As many vertices are noted as are dirty. -/
theorem length_marked (h : g.Neat) (hnoted : g.Noted) : g.marked.length = g.dirtyCount :=
  length_eq_dirtyCount h.nodup fun k => ⟨h.dirty k, hnoted k⟩

end Neat

end Spreadsheet.Graph

/-! ### Dependencies that stay -/

namespace Spreadsheet.Graph

variable {g g' : Graph} {i k : Slot} {c v : Vertex}

/-- The formula that stands in a slot of the second graph stands there in the first one, with the same dependencies. -/
def Retains (g g' : Graph) (k : Slot) : Prop :=
  ∀ c, g'.gist? k = some c → c.content ≠ .value →
    ∃ c₀, g.gist? k = some c₀ ∧ c₀.position = c.position ∧ c₀.content = c.content ∧ c₀.dependencies = c.dependencies

namespace Retains

theorem of_gist? (h : g'.gist? k = g.gist? k) : Retains g g' k := fun c hc _ => ⟨c, h ▸ hc, rfl, rfl, rfl⟩

theorem of_none (h : ∀ c, g'.gist? k = some c → c.content = .value) : Retains g g' k :=
  fun c hc hformula => absurd (h c hc) hformula

theorem of_remains (h : RemainsBut (fun _ => False) g g') (k : Slot) : Retains g g' k := fun c hc hformula => by
  obtain ⟨b, -, hgist⟩ := (h k c id hc hformula).gist
  exact ⟨_, hgist, rfl, rfl, rfl⟩

theorem trans {g₁ g₂ g₃ : Graph} (h : Retains g₁ g₂ k) (h' : Retains g₂ g₃ k) : Retains g₁ g₃ k := by
  intro c hc hformula
  obtain ⟨c₁, hc₁, hpos, hcontent, hdeps⟩ := h' c hc hformula
  obtain ⟨c₀, hc₀, hpos', hcontent', hdeps'⟩ := h c₁ hc₁ (hcontent ▸ hformula)
  exact ⟨c₀, hc₀, hpos'.trans hpos, hcontent'.trans hcontent, hdeps'.trans hdeps⟩

theorem markVolatile (g : Graph) (k : Slot) : Retains g g.markVolatile k := by
  have hforget : Retains g { g with volatiles := [] } k := of_gist? rfl
  exact hforget.trans (of_remains (.of_marks (marks_markVolatile g) _) k)

theorem beginPass {σ : Type} (g : Graph) (state : σ) (k : Slot) : Retains g (g.beginPass state).graph k := by
  intro c hc _
  rw [Pass.gist?_beginPass] at hc
  obtain ⟨c₀, hc₀, rfl⟩ := Option.map_eq_some_iff.1 hc
  refine ⟨c₀, hc₀, ?_⟩
  split <;> exact ⟨rfl, rfl, rfl⟩

theorem updates {f : Vertex → Vertex} (h : Updates i f g g') (k : Slot) : Retains g g' k := by
  intro c hc _
  obtain ⟨w, hw, rfl⟩ := gist?_eq_some_iff.1 hc
  rw [h.vertex] at hw
  split at hw
  · obtain ⟨v, hv, rfl⟩ := Option.map_eq_some_iff.1 hw
    exact ⟨v.gist, gist?_of_vertex? hv, (h.keeps.position v).symm, (h.keeps.content v).symm,
      (h.keeps.dependencies v).symm⟩
  · exact ⟨w.gist, gist?_of_vertex? hw, rfl, rfl, rfl⟩

end Retains

namespace Pass

variable {σ : Type} {h : Handler σ} {limit : Nat} {p p' q : Pass σ} {way : Look}
  {moments before after : List (Pass σ × Slot)}

/-- A step keeps the dependencies of all formulas but those of a vertex whose dependencies it replaces. -/
theorem Looked.retains (hl : Looked h limit p i way p') (hwell : p.graph.WellFormed) (hk : way = .rewired → k ≠ i) :
    Retains p.graph p'.graph k := by
  rcases hl.changes hwell with hup | ⟨f, hu⟩ | ⟨hrewired, -⟩
  · exact .of_gist? (hup.gist? k)
  · have hchart : Retains p.graph (p.graph.charted i) k := .of_gist? ((upToCycles_charted p.graph i).gist? k)
    exact hchart.trans (.updates hu k)
  · have hki := hk hrewired
    by_cases hlive : p.graph.Live k
    · exact .of_gist? (hl.gist?_of_ne hwell hki hlive)
    · refine .of_none fun c hc => ?_
      obtain ⟨v, hv, -⟩ := gist?_eq_some_iff.1 hc
      obtain ⟨q, hq⟩ := hl.gist?_fresh hwell hlive ⟨v, hv⟩
      rw [hq, Option.some.injEq] at hc
      rw [← hc]

/-- No dependencies of the vertex in a slot are replaced at some moments. -/
def Spares (h : Handler σ) (limit : Nat) (moments : List (Pass σ × Slot)) (k : Slot) : Prop :=
  ∀ m ∈ moments, m.2 = k → look h limit m.1 m.2 ≠ .rewired

/-- Either the dependencies of a vertex are never replaced, or there is a last time. -/
theorem spares_or_rewired (h : Handler σ) (limit : Nat) (moments : List (Pass σ × Slot)) (k : Slot) :
    Spares h limit moments k ∨ ∃ before q after, moments = before ++ (q, k) :: after ∧
      look h limit q k = .rewired ∧ Spares h limit after k := by
  induction moments with
  | nil => exact .inl nofun
  | cons m moments ih =>
    rcases ih with hspares | ⟨before, q, after, rfl, hlast⟩
    · by_cases hm : m.2 = k ∧ look h limit m.1 m.2 = .rewired
      · obtain ⟨rfl, hlook⟩ := hm
        exact .inr ⟨[], m.1, moments, rfl, hlook, hspares⟩
      · exact .inl (List.forall_mem_cons.2 ⟨fun hk hlook => hm ⟨hk, hlook⟩, hspares⟩)
    · exact .inr ⟨m :: before, q, after, rfl, hlast⟩

theorem Runs.retains (hr : Runs h limit p moments p') (hu : Underway p) (hspares : Spares h limit moments k) :
    Retains p.graph p'.graph k := by
  induction hr with
  | done => exact .of_gist? rfl
  | @look p p' i rest moments hq hrest ih =>
    have hl := looked_step (p := p.taken rest) hu.cycles h limit i
    have hfirst : Retains p.graph (Pass.step h limit (p.taken rest) i).graph k := by
      refine hl.retains (p := p.taken rest) hu.wellFormed fun hlook hk => ?_
      exact hspares _ List.mem_cons_self hk.symm hlook
    exact hfirst.trans (ih (hu.step hq h limit) fun m hm => hspares m (List.mem_cons_of_mem _ hm))

/-- A pass goes on from each of its moments. -/
theorem Runs.split (hr : Runs h limit p moments p') (hu : Underway p) (hmoments : moments = before ++ (q, i) :: after) :
    q.graph.WellFormed ∧ q.graph.CyclesKnown ∧ Underway (Pass.step h limit q i) ∧
      Runs h limit (Pass.step h limit q i) after p' := by
  induction hr generalizing before with
  | done => simp at hmoments
  | @look p p' j rest moments hq hrest ih =>
    cases before with
    | nil =>
      rw [List.nil_append, List.cons.injEq, Prod.mk.injEq] at hmoments
      obtain ⟨⟨rfl, rfl⟩, rfl⟩ := hmoments
      exact ⟨hu.wellFormed, hu.cycles, hu.step hq h limit, hrest⟩
    | cons m before =>
      rw [List.cons_append, List.cons.injEq] at hmoments
      exact ih (hu.step hq h limit) hmoments.2

/-- The vertex whose dependencies a step replaces. -/
theorem Looked.gist?_rewired (hl : Looked h limit p i .rewired p') (hwell : p.graph.WellFormed)
    (hc : p'.graph.gist? i = some c) : ∃ w e d state, p.graph.refreshCycles.vertex? i = some w ∧
      w.position = c.position ∧ w.content = c.content ∧ w.expression? = some e ∧
      (h.calculate w e).run p.state = (.rewire d, state) ∧ c.dependencies = d := by
  cases hl with
  | @rewired w e d state hready he hrun =>
    obtain ⟨b, hb⟩ := (upToCycles_refreshCycles p.graph).vertex_of' hready.vertex
    obtain ⟨b', hb'⟩ := (upToCycles_charted p.graph i).vertex_of hb
    have hgist := (rewired_retried hwell hready state d).gist?_self ((updates_retried p i state).vertex_self hb')
    change ((p.retried i state).graph.rewire i d).gist? i = some c at hc
    rw [hgist, Option.some.injEq] at hc
    subst hc
    exact ⟨w, e, d, state, hready.vertex, rfl, rfl, he, hrun, rfl⟩

/-- The dependencies that the last replacement has given to a vertex are those that it has at the end. -/
theorem Runs.rewired (hr : Runs h limit p moments p') (hu : Underway p) (hmoments : moments = before ++ (q, i) :: after)
    (hlook : Pass.look h limit q i = .rewired) (hspares : Spares h limit after i) (hv : p'.graph.vertex? i = some v)
    (hformula : v.content ≠ .value) : ∃ w e d state, q.graph.refreshCycles.vertex? i = some w ∧
      w.position = v.position ∧ w.content = v.content ∧ w.expression? = some e ∧
      (h.calculate w e).run q.state = (.rewire d, state) ∧ v.dependencies = d := by
  obtain ⟨hwell, hknown, hunder, hrest⟩ := hr.split hu hmoments
  obtain ⟨c, hc, hpos, hcontent, hdeps⟩ := hrest.retains hunder hspares v.gist (gist?_of_vertex? hv) hformula
  have hl := looked_step hknown h limit i
  rw [hlook] at hl
  obtain ⟨w, e, d, state, hw, hpos', hcontent', he, hrun, hd⟩ := hl.gist?_rewired hwell hc
  exact ⟨w, e, d, state, hw, hpos'.trans hpos, hcontent'.trans hcontent, he, hrun, hdeps.symm.trans hd⟩

end Pass

end Spreadsheet.Graph
