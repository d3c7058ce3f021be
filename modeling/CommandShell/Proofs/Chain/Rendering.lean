import CommandShell.Proofs.Chain.Concatenation
import Mathlib.Data.List.Chain
import Mathlib.Data.Set.Function

/-!
# Chains and the texts that they are cut from

A cut leaves out nothing, so a chain written out again is the text that it was cut from. Several
chains may be written the same way: `a&&&b` is `a` and `&b`, or `a&` and `b`. A cut takes every
operator as early as it can, and this singles out one chain for each text.
-/

namespace CommandShell.Chain

/-- The operator can be read one character earlier, from the end of the text in front of it. -/
def Completes (text : Text) : Operator → Prop
  | .and => text.getLast? = some '&'
  | .or => text.getLast? = some '|'
  | .start | .seq => False

/-- A chain as it is cut from a text. -/
structure Canonical (chain : List Segment) : Prop where
  operators : ∃ later, chain.map (·.operator) = .start :: later ∧ .start ∉ later
  plain : ∀ segment ∈ chain, Plain segment.text
  early : chain.IsChain fun segment next => ¬ Completes segment.text next.operator
  typed : ∀ segment ∈ chain, segment.expanded = false

/-! ### A cut written out -/

theorem segments_cut_spelling (before : Operator) (expanded : Bool) {operator : Operator}
    (hoperator : operator ≠ .start) (rest : Text) :
    segments before expanded (cut (operator.spelling ++ rest)) =
      { text := [], operator := before, expanded } :: segments operator expanded (cut rest) := by
  rw [cut_spelling hoperator]
  rfl

theorem render_cons (segment : Segment) (chain : List Segment) :
    render (segment :: chain) = segment.operator.spelling ++ (segment.text ++ render chain) := by
  rw [render, List.flatMap_cons, List.append_assoc, ← render]

theorem render_segments_cut (before : Operator) (expanded : Bool) (line : Text) :
    render (segments before expanded (cut line)) = before.spelling ++ line := by
  induction line using cut_induction generalizing before with
  | nil => simp [segments, cut, render]
  | sign operator rest hoperator ih =>
      rw [segments_cut_spelling before expanded hoperator, render_cons, ih, List.nil_append]
  | letter character rest hopens ih =>
      have hrest := ih .start
      rw [segments, render_cons, Operator.spelling] at hrest
      rw [cut_cons hopens, segments, render_cons, List.cons_append]
      exact congrArg (fun text => before.spelling ++ character :: text) hrest

theorem render_split (line : Text) : render (split line) = line := by
  rw [split_eq_segments, render_segments_cut]
  rfl

/-! ### What a cut keeps to -/

theorem plain_of_mem_segments_cut (before : Operator) (expanded : Bool) (line : Text) :
    ∀ segment ∈ segments before expanded (cut line), Plain segment.text := by
  induction line using cut_induction generalizing before with
  | nil => simp [segments, cut, plain_iff]
  | sign operator rest hoperator ih =>
      rw [segments_cut_spelling before expanded hoperator]
      exact List.forall_mem_cons.mpr ⟨plain_iff.mpr rfl, ih operator⟩
  | letter character rest hopens ih =>
      obtain ⟨-, hlater⟩ := List.forall_mem_cons.mp (ih before)
      refine List.forall_mem_cons.mpr ⟨plain_iff.mpr ?_, ?_⟩
      · rw [cut_cut_fst]
      · rwa [cut_cons hopens]

theorem start_not_mem_cut (line : Text) : .start ∉ (cut line).2.map (·.1) := by
  induction line using cut_induction with
  | nil => exact List.not_mem_nil
  | sign operator rest hoperator ih =>
      rw [cut_spelling hoperator, List.map_cons, List.mem_cons, not_or]
      exact ⟨hoperator.symm, ih⟩
  | letter character rest hopens ih => rwa [cut_cons hopens]

theorem not_completes_nil (operator : Operator) : ¬ Completes [] operator := by
  cases operator <;> simp [Completes]

theorem completes_cons {text : Text} (hne : text ≠ []) (character : Char) (operator : Operator) :
    Completes (character :: text) operator ↔ Completes text operator := by
  cases operator <;> simp [Completes, List.getLast?_cons, List.getLast?_eq_some_getLast hne]

theorem prefix_of_cut {line text next : Text} {operator : Operator}
    {others : List (Operator × Text)} (hcut : cut line = (text, (operator, next) :: others)) :
    text ++ operator.spelling <+: line := by
  have hline := render_split line
  rw [split_eq_segments, hcut, segments, List.map_cons, render_cons, render_cons] at hline
  exact ⟨_, (List.append_assoc _ _ _).trans hline⟩

/-- A single character that completes an operator would have been read together with it. -/
theorem prefix_of_completes {character : Char} {rest : Text} {operator : Operator}
    (hcompletes : Completes [character] operator) (hrest : operator.spelling <+: rest) :
    operator.spelling <+: character :: rest := by
  obtain ⟨others, rfl⟩ := hrest
  cases operator with
  | start | seq => exact hcompletes.elim
  | and | or =>
      obtain rfl := Option.some.inj hcompletes
      exact ⟨_, rfl⟩

theorem early_segments_cut (before : Operator) (expanded : Bool) (line : Text) :
    (segments before expanded (cut line)).IsChain
      fun segment next => ¬ Completes segment.text next.operator := by
  induction line using cut_induction generalizing before with
  | nil => exact List.isChain_singleton _
  | sign operator rest hoperator ih =>
      rw [segments_cut_spelling before expanded hoperator, segments, List.isChain_cons_cons]
      exact ⟨not_completes_nil operator, ih operator⟩
  | letter character rest hopens ih =>
      have hrest := ih before
      have hstart := start_not_mem_cut rest
      rw [cut_cons hopens]
      rcases hcut : cut rest with ⟨text, _ | ⟨⟨operator, next⟩, others⟩⟩
      · exact List.isChain_singleton _
      · rw [hcut] at hrest hstart
        rw [segments, List.map_cons, List.isChain_cons_cons] at hrest ⊢
        refine ⟨fun hcompletes => ?_, hrest.2⟩
        by_cases hne : text = []
        · subst hne
          have hoperator : operator ≠ .start := by
            rintro rfl
            exact hstart List.mem_cons_self
          exact hopens operator hoperator (prefix_of_completes hcompletes (prefix_of_cut hcut))
        · exact hrest.1 ((completes_cons hne _ _).mp hcompletes)

theorem canonical_split (line : Text) : Canonical (split line) where
  operators := by
    refine ⟨(cut line).2.map (·.1), ?_, start_not_mem_cut line⟩
    simp [split, Function.comp_def]
  plain := plain_of_mem_segments_cut .start false line
  early := early_segments_cut .start false line
  typed := by
    intro segment hsegment
    rcases List.mem_cons.mp hsegment with rfl | hlater
    · rfl
    · obtain ⟨part, -, rfl⟩ := List.mem_map.mp hlater
      rfl

/-! ### A chain cut from its own text -/

/-- An operator that is spelled behind a text begins behind it, unless the text completes it. -/
theorem opensPlain_append {character : Char} {text : Text} {operator : Operator}
    (hplain : Plain (character :: text)) (hearly : ¬ Completes (character :: text) operator)
    (hoperator : operator ≠ .start) (rest : Text) :
    OpensPlain (character :: (text ++ (operator.spelling ++ rest))) := by
  cases text with
  | cons second others =>
      have hopens : OpensPlain (character :: second :: others) := hplain.opensPlain
      exact hopens.append_of_two_le (by simp) _
  | nil =>
      intro sign hsign hstart
      have hfirst : ¬ sign.spelling <+: [character] := hplain.opensPlain sign hsign
      cases sign <;> cases operator <;> simp_all [Operator.spelling, Completes, eq_comm]

theorem cut_append_spelling {text : Text} {operator : Operator} (hplain : Plain text)
    (hearly : ¬ Completes text operator) (hoperator : operator ≠ .start) (rest : Text) :
    cut (text ++ (operator.spelling ++ rest)) =
      (text, (operator, (cut rest).1) :: (cut rest).2) := by
  induction text with
  | nil => exact cut_spelling hoperator rest
  | cons character text ih =>
      have hopens := opensPlain_append hplain hearly hoperator rest
      have hearly' : ¬ Completes text operator := by
        by_cases hne : text = []
        · exact hne ▸ not_completes_nil operator
        · rwa [completes_cons hne] at hearly
      rw [List.cons_append, cut_cons hopens, ih hplain.of_cons hearly']

theorem cut_render {segment : Segment} {later : List Segment}
    (hplain : ∀ part ∈ segment :: later, Plain part.text)
    (hearly : (segment :: later).IsChain fun part next => ¬ Completes part.text next.operator)
    (hoperators : ∀ part ∈ later, part.operator ≠ .start) :
    cut (segment.text ++ render later) =
      (segment.text, later.map fun part => (part.operator, part.text)) := by
  induction later generalizing segment with
  | nil =>
      rw [render, List.flatMap_nil, List.append_nil, List.map_nil]
      exact cut_of_plain (hplain segment List.mem_cons_self)
  | cons next others ih =>
      obtain ⟨hsegment, hnext⟩ := List.forall_mem_cons.mp hplain
      obtain ⟨hhere, hthere⟩ := List.isChain_cons_cons.mp hearly
      obtain ⟨hoperator, hothers⟩ := List.forall_mem_cons.mp hoperators
      rw [render_cons, cut_append_spelling hsegment hhere hoperator, ih hnext hthere hothers,
        List.map_cons]

theorem split_render {chain : List Segment} (hchain : Canonical chain) :
    split (render chain) = chain := by
  obtain ⟨⟨operators, hoperators, hstart⟩, hplain, hearly, htyped⟩ := hchain
  rcases chain with _ | ⟨⟨text, operator, expanded⟩, later⟩
  · cases hoperators
  · obtain ⟨rfl, rfl⟩ := List.cons.inj hoperators
    obtain ⟨rfl, hlater⟩ := List.forall_mem_cons.mp htyped
    have hnone : ∀ part ∈ later, part.operator ≠ .start := fun part hpart hoperator =>
      hstart (hoperator ▸ List.mem_map_of_mem hpart)
    have hcut : cut (text ++ render later) =
        (text, later.map fun part => (part.operator, part.text)) := cut_render hplain hearly hnone
    have hkeeps : ∀ part ∈ later,
        ({ text := part.text, operator := part.operator } : Segment) = part := by
      rintro ⟨_, _, _⟩ hpart
      obtain rfl := hlater _ hpart
      rfl
    calc split (render (_ :: later))
        = segments .start false (cut (text ++ render later)) := by rw [render_cons]; rfl
      _ = { text, operator := .start } ::
            later.map fun part => { text := part.text, operator := part.operator } := by
          rw [hcut, segments, List.map_map]
          rfl
      _ = { text, operator := .start } :: later := by rw [List.map_congr_left hkeeps, List.map_id']

/-- Cutting is a one-to-one correspondence between texts and canonical chains, and writing a chain
out is its inverse. -/
theorem split_bijOn :
    Set.BijOn split Set.univ {chain | Canonical chain} ∧
      Set.InvOn render split Set.univ {chain | Canonical chain} := by
  have hinverse : Set.InvOn render split Set.univ {chain | Canonical chain} :=
    ⟨fun line _ => render_split line, fun chain hchain => split_render hchain⟩
  exact ⟨hinverse.bijOn (fun line _ => canonical_split line) (Set.mapsTo_univ _ _), hinverse⟩

example : split "a&&&b".toList =
    [{ text := "a".toList, operator := .start }, { text := "&b".toList, operator := .and }] := by
  decide

end CommandShell.Chain
