import Evolution.Program.Edit
import Evolution.Proofs.Blueprint.Code
import Evolution.Proofs.Draw.Faults

/-! Programs with other texts. To rewrite the texts of a program changes nothing else about it: the code
is the same, and every footnote, used or unused, has one of its type in its place. -/

namespace Evolution

/-- The program `q` is the program `p` with other texts. Each footnote of the one is related to that in
its place in the other. -/
structure Program.Retexted (related : Footnote → Footnote → Prop) (p q : Program) : Prop where
  root : q.root.unlinked = p.root.unlinked
  used : List.Forall₂ related p.root.footnotes q.root.footnotes
  unused : List.Forall₂ related p.unused q.unused

theorem Program.Retexted.code {related : Footnote → Footnote → Prop} {p q : Program}
    (h : p.Retexted related q) : q.code = p.code := by
  rw [Program.code, ← Point.code_unlinked, h.root, Point.code_unlinked, Program.code]

variable {f : Footnote → Draw String} {related : Footnote → Footnote → Prop}
  {causes : Words → DrawFault → Prop}

namespace Point

mutual

theorem yields_mapTexts (h : ∀ note, (f note).Yields fun text => related note { note with text }) :
    ∀ p : Point, (p.mapTexts f).Yields fun q =>
      q.unlinked = p.unlinked ∧ List.Forall₂ related p.footnotes q.footnotes
  | .block ps => by
    refine (yields_mapTextsIn h ps).bind fun qs made => .pure ?_
    rw [unlinked_block, unlinked_block, footnotes_block, footnotes_block, block.injEq]
    exact made
  | .instruction _ | .reference _ => .pure ⟨rfl, .nil⟩
  | .literal note => (h note).bind fun text made => .pure ⟨rfl, .cons made .nil⟩

theorem yields_mapTextsIn (h : ∀ note, (f note).Yields fun text => related note { note with text }) :
    ∀ ps : List Point, (mapTextsIn f ps).Yields fun qs =>
      qs.map unlinked = ps.map unlinked ∧
        List.Forall₂ related (ps.flatMap footnotes) (qs.flatMap footnotes)
  | [] => .pure ⟨rfl, .nil⟩
  | p :: ps => by
    refine (yields_mapTexts h p).bind fun q first => ?_
    refine (yields_mapTextsIn h ps).bind fun qs others => .pure ⟨?_, ?_⟩
    · rw [List.map_cons, List.map_cons, first.1, others.1]
    · exact List.rel_append first.2 others.2

end

mutual

theorem failsOnly_mapTexts (h : ∀ note, (f note).FailsOnly causes) :
    ∀ p : Point, (p.mapTexts f).FailsOnly causes
  | .block ps => (failsOnly_mapTextsIn h ps).bind fun _ _ => .pure _
  | .instruction _ | .reference _ => .pure _
  | .literal note => (h note).bind fun _ _ => .pure _

theorem failsOnly_mapTextsIn (h : ∀ note, (f note).FailsOnly causes) :
    ∀ ps : List Point, (mapTextsIn f ps).FailsOnly causes
  | [] => .pure _
  | p :: ps =>
    (failsOnly_mapTexts h p).bind fun _ _ => (failsOnly_mapTextsIn h ps).bind fun _ _ => .pure _

end

end Point

namespace Program

theorem yields_mapTexts (h : ∀ note, (f note).Yields fun text => related note { note with text })
    (p : Program) : (p.mapTexts f).Yields (p.Retexted related) := by
  have pool : ∀ notes : List Footnote,
      (notes.mapM fun note => return { note with text := ← f note }).Yields
        (List.Forall₂ related notes) := by
    intro notes
    induction notes with
    | nil => exact .pure .nil
    | cons note rest ih =>
      rw [List.mapM_cons]
      have first : (do return { note with text := ← f note } : Draw Footnote).Yields (related note) :=
        (h note).bind fun text made => .pure made
      exact first.bind fun _ made => ih.bind fun _ others => .pure (.cons made others)
  refine (p.root.yields_mapTexts h).bind fun root made => ?_
  exact (pool p.unused).bind fun unused others => .pure ⟨made.1, made.2, others⟩

theorem failsOnly_mapTexts (h : ∀ note, (f note).FailsOnly causes) (p : Program) :
    (p.mapTexts f).FailsOnly causes := by
  refine (p.root.failsOnly_mapTexts h).bind fun root _ => ?_
  refine Draw.FailsOnly.bind ?_ fun unused _ => .pure _
  induction p.unused with
  | nil => exact .pure _
  | cons note rest ih =>
    rw [List.mapM_cons]
    exact .bind ((h note).bind fun _ _ => .pure _) fun _ _ => ih.bind fun _ _ => .pure _

end Program

end Evolution
