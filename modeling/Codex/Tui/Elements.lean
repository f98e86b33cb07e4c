import Codex.Tui.Commands

/-!
# Making, renaming and removing elements

The operations that change the elements themselves, each with what it does to the others.

* `renamed_split`, `replaceElementPayload_cases`: a payload is replaced in one element, and those
  after it move;
* `mem_addElement`: a range becomes an element beside those that are there;
* `ranges_pushElements`: the elements that a text is set with.

They need not be sorted on the way: `Scattered` elements are pairwise apart, and sorting them
places them (`placed_sortElements`).
-/

namespace Codex.Tui

open Codex.Lib
open String (utf8Len)

/-- Two ranges do not overlap. -/
def Range.Apart (a b : Range) : Prop := a.stop ≤ b.start ∨ b.stop ≤ a.start

instance (a b : Range) : Decidable (a.Apart b) := inferInstanceAs (Decidable (_ ∨ _))

/-- Disjoint, nonempty and on character boundaries, in any order. -/
structure Scattered (text : Text) (elements : List TextElement) : Prop where
  apart : elements.Pairwise fun a b => a.range.Apart b.range
  nonempty : ∀ e ∈ elements, e.range.start < e.range.stop
  boundaries : ∀ e ∈ elements, e.range.OnBoundaries text

lemma Placed.scattered {text : Text} {elements : List TextElement} (h : Placed text elements) :
    Scattered text elements :=
  ⟨h.sorted.imp fun hab => .inl hab, h.nonempty, fun e he => ⟨h.start e he, h.stop e he⟩⟩

namespace TextArea

variable {s : TextArea} {elements : List TextElement} {e : TextElement}

lemma mem_sortElements : e ∈ sortElements elements ↔ e ∈ elements :=
  List.mem_insertionSort _

variable {text : Text}

/-- **Scattered elements are placed once they are sorted.** -/
theorem placed_sortElements (h : Scattered text elements) :
    Placed text (sortElements elements) := by
  refine ⟨?_, ?_, ?_, ?_⟩
  · have htotal : Std.Total fun a b : TextElement => a.range.start ≤ b.range.start :=
      ⟨fun a b => Nat.le_total ..⟩
    have htrans : IsTrans TextElement fun a b => a.range.start ≤ b.range.start :=
      ⟨fun a b c hab hbc => hab.trans hbc⟩
    have hsorted := List.pairwise_insertionSort
      (fun a b : TextElement => a.range.start ≤ b.range.start) elements
    have hapart : (sortElements elements).Pairwise fun a b => a.range.Apart b.range :=
      (List.Perm.pairwise_iff (fun hab => hab.symm)
        (List.perm_insertionSort _ elements)).mpr h.apart
    apply (hsorted.and hapart).imp_of_mem
    rintro a b ha hb ⟨hle, hd⟩
    have hne := h.nonempty b (mem_sortElements.mp hb)
    rcases hd with hd | hd
    · exact hd
    · omega
  · exact fun e he => h.nonempty e (mem_sortElements.mp he)
  · exact fun e he => (h.boundaries e (mem_sortElements.mp he)).start
  · exact fun e he => (h.boundaries e (mem_sortElements.mp he)).stop

lemma atomic_sortElements {pos : ℕ} (h : Atomic text elements pos) :
    Atomic text (sortElements elements) pos :=
  ⟨h.boundary, fun e he => h.outside e (mem_sortElements.mp he)⟩

lemma scattered_append (h : Scattered text elements)
    (hne : e.range.start < e.range.stop) (hon : e.range.OnBoundaries text)
    (hapart : ∀ f ∈ elements, f.range.Apart e.range) :
    Scattered text (elements ++ [e]) := by
  refine ⟨?_, ?_, ?_⟩
  · rw [List.pairwise_append]
    refine ⟨h.apart, List.pairwise_singleton .., ?_⟩
    intro f hf g hg
    obtain rfl := List.mem_singleton.mp hg
    exact hapart f hf
  · exact List.forall_mem_append.mpr ⟨h.nonempty, List.forall_mem_singleton.mpr hne⟩
  · exact List.forall_mem_append.mpr ⟨h.boundaries, List.forall_mem_singleton.mpr hon⟩

lemma onBoundaries_clampRange (range : Range) : (s.clampRange range).OnBoundaries s.text :=
  ⟨isBoundary_clampToBoundary .., isBoundary_clampToBoundary ..⟩

lemma clampRange_apart {a b : Range} (h : a.Apart b) : (s.clampRange a).Apart (s.clampRange b) := by
  rcases h with h | h
  · exact .inl (clampToBoundary_mono (by omega))
  · exact .inr (clampToBoundary_mono (by omega))

/-! ### New elements -/

/-- The elements and the element `e` in sorted order, over the same text. -/
theorem mem_addElement {range : Range} :
    e ∈ (s.addElement range).1.elements ↔ e ∈ s.elements ∨ e = ⟨s.nextElementId, range⟩ := by
  simp only [addElement, mem_sortElements, List.mem_append, List.mem_singleton]

lemma valid_addElement (h : s.Valid) {range : Range} (hne : range.start < range.stop)
    (hon : range.OnBoundaries s.text) (hapart : ∀ f ∈ s.elements, f.range.Apart range)
    (hcursor : ¬ (range.start < s.cursorPos ∧ s.cursorPos < range.stop)) :
    (s.addElement range).1.Valid := by
  refine ⟨placed_sortElements (scattered_append h.placed.scattered hne hon hapart), ?_⟩
  refine ⟨h.cursor.boundary, ?_⟩
  intro e he
  rcases mem_addElement.mp he with he | rfl
  · exact h.cursor.outside e he
  · exact hcursor

/-! ### Renaming -/

/-- What `replace_element_payload` does to a list of placed elements around the one it replaces. -/
theorem renamed_split {l l' : List TextElement} {found : TextElement} (inserted : ℕ)
    (h : Placed text (l ++ found :: l')) :
    (l ++ found :: l').mapIdx
        (replacedAt l.length found.range.start found.range.stop inserted) =
      l ++ { found with range := ⟨found.range.start, found.range.start + inserted⟩ } ::
        l'.map (moveElement (found.range.stop - found.range.start) inserted) := by
  have hsorted := List.pairwise_append.mp h.sorted
  have hfound := h.nonempty found (by simp)
  rw [List.mapIdx_append, List.mapIdx_cons]
  congr 1
  · have hsame : ∀ (i : ℕ) (e : TextElement), l[i]? = some e →
        replacedAt l.length found.range.start found.range.stop inserted i e = e := by
      intro i e hi
      have hlt := (List.getElem?_eq_some_iff.mp hi).1
      have hle := hsorted.2.2 e (List.mem_of_getElem? hi) found List.mem_cons_self
      rw [replacedAt, if_neg (by omega), shiftBeside, if_pos hle, ite_self]
    apply List.ext_getElem?
    intro i
    rw [List.getElem?_mapIdx]
    cases hi : l[i]? with
    | none => rfl
    | some e => exact congrArg some (hsame i e hi)
  congr 1
  · simp only [replacedAt, Nat.zero_add, if_true]
  · apply List.ext_getElem?
    intro i
    rw [List.getElem?_mapIdx, List.getElem?_map]
    cases hi : l'[i]? with
    | none => rfl
    | some e =>
      have hmem := List.mem_of_getElem? hi
      have hle := (List.pairwise_cons.mp hsorted.2.1).1 e hmem
      have hne := h.nonempty e (by simp [hmem])
      refine congrArg some ?_
      simp only [replacedAt, shiftBeside]
      rw [if_neg (by omega)]
      by_cases heq : inserted = found.range.stop - found.range.start
      · rw [if_pos heq]
        simp only [moveElement, heq, Nat.add_sub_cancel]
      · rw [if_neg heq, if_neg (by omega), if_pos hle]

section renamed

variable {text new : Text} {l l' : List TextElement} {found : TextElement}

/-- The elements before and after the one that is replaced. -/
theorem placed_sides (h : Placed text (l ++ found :: l')) :
    (∀ e ∈ l, e.range.stop ≤ found.range.start) ∧ ∀ e ∈ l', found.range.stop ≤ e.range.start := by
  have hsorted := List.pairwise_append.mp h.sorted
  exact ⟨fun e he => hsorted.2.2 e he found List.mem_cons_self,
    (List.pairwise_cons.mp hsorted.2.1).1⟩

/-- **Renamed to a nonempty text, the element and those around it are placed.** -/
theorem placed_renamed (h : Placed text (l ++ found :: l')) (hnew : new ≠ []) :
    Placed (splice text found.range.start found.range.stop new)
      (l ++ { found with range := ⟨found.range.start, found.range.start + utf8Len new⟩ } ::
        l'.map (moveElement (found.range.stop - found.range.start) (utf8Len new))) := by
  obtain ⟨hbefore, hafter⟩ := placed_sides h
  have hmem : found ∈ l ++ found :: l' := by simp
  have hne := h.nonempty found hmem
  have hlen : 0 < utf8Len new := by
    rw [Nat.pos_iff_ne_zero]
    exact fun hzero => hnew (String.utf8Len_eq_zero.mp hzero)
  have hstart := h.start found hmem
  have hstop := h.stop found hmem
  have hl : ∀ e ∈ l, e ∈ l ++ found :: l' := fun e he => List.mem_append_left _ he
  have hl' : ∀ e ∈ l', e ∈ l ++ found :: l' := fun e he => by simp [he]
  have hsorted := List.pairwise_append.mp h.sorted
  refine ⟨?_, ?_, ?_, ?_⟩
  · rw [List.pairwise_append, List.pairwise_cons, List.pairwise_map]
    refine ⟨hsorted.1, ⟨?_, ?_⟩, ?_⟩
    · intro e' he'
      obtain ⟨e, he, rfl⟩ := List.mem_map.mp he'
      have := hafter e he
      simp only [moveElement]
      omega
    · apply (List.pairwise_cons.mp hsorted.2.1).2.imp
      intro a b hab
      simp only [moveElement]
      omega
    · intro a ha b hb
      have hle := hbefore a ha
      rcases List.mem_cons.mp hb with rfl | hb
      · exact hle
      · obtain ⟨e, he, rfl⟩ := List.mem_map.mp hb
        have := hafter e he
        simp only [moveElement]
        omega
  · intro e' he'
    rcases List.mem_append.mp he' with he' | he'
    · exact h.nonempty e' (hl e' he')
    rcases List.mem_cons.mp he' with rfl | he'
    · simp only
      omega
    · obtain ⟨e, he, rfl⟩ := List.mem_map.mp he'
      have := h.nonempty e (hl' e he)
      have := hafter e he
      simp only [moveElement]
      omega
  · intro e' he'
    rcases List.mem_append.mp he' with he' | he'
    · have hle := hbefore e' he'
      have hne' := h.nonempty e' (hl e' he')
      exact isBoundary_splice_of_le hstart hstop hne.le (h.start e' (hl e' he')) (by omega)
    rcases List.mem_cons.mp he' with rfl | he'
    · exact isBoundary_splice_of_le hstart hstop hne.le hstart le_rfl
    · obtain ⟨e, he, rfl⟩ := List.mem_map.mp he'
      exact isBoundary_splice_of_ge hstart hstop hne.le (h.start e (hl' e he)) (hafter e he)
  · intro e' he'
    rcases List.mem_append.mp he' with he' | he'
    · exact isBoundary_splice_of_le hstart hstop hne.le (h.stop e' (hl e' he')) (hbefore e' he')
    rcases List.mem_cons.mp he' with rfl | he'
    · exact isBoundary_splice_new hstart hstop hne.le
    · obtain ⟨e, he, rfl⟩ := List.mem_map.mp he'
      have hle := hafter e he
      have hne' := h.nonempty e (hl' e he)
      exact isBoundary_splice_of_ge hstart hstop hne.le (h.stop e (hl' e he)) (by omega)

end renamed

/-- The element that is renamed and what becomes of the state. -/
theorem replaceElementPayload_cases (h : s.Valid) (old new : Text) :
    ((∀ e ∈ s.elements, s.payload e ≠ some old) ∧ (s.replaceElementPayload old new).1 = s) ∨
      ∃ l found l', s.elements = l ++ found :: l' ∧
        slice s.text found.range.start found.range.stop = old ∧
        (s.replaceElementPayload old new).1.text =
          splice s.text found.range.start found.range.stop new ∧
        (s.replaceElementPayload old new).1.elements = sortElements
          (l ++ { found with range := ⟨found.range.start, found.range.start + utf8Len new⟩ } ::
            l'.map (moveElement (found.range.stop - found.range.start) (utf8Len new))) ∧
        (new ≠ [] → Atomic (s.replaceElementPayload old new).1.text
          (s.replaceElementPayload old new).1.elements
          (s.replaceElementPayload old new).1.cursorPos) := by
  cases hfind : s.elements.findIdx? (fun e => decide (s.payload e = some old)) with
  | none =>
    refine .inl ⟨?_, ?_⟩
    · intro e he heq
      exact absurd (decide_eq_true heq) (by simpa using List.findIdx?_eq_none_iff.mp hfind e he)
    · rw [replaceElementPayload, hfind]
  | some idx =>
    obtain ⟨hlt, hp, -⟩ := List.findIdx?_eq_some_iff_getElem.mp hfind
    have hsplit : s.elements =
        s.elements.take idx ++ s.elements[idx] :: s.elements.drop (idx + 1) := by
      rw [← List.drop_eq_getElem_cons hlt, List.take_append_drop]
    have hlen : (s.elements.take idx).length = idx := List.length_take_of_le hlt.le
    have hget := List.getElem?_eq_getElem hlt
    generalize s.elements[idx] = found at hp hsplit hget
    generalize s.elements.take idx = l at hsplit hlen
    generalize s.elements.drop (idx + 1) = l' at hsplit
    have hmem : found ∈ s.elements := by rw [hsplit]; simp
    have hne := h.placed.nonempty found hmem
    have hstop := h.placed.stop found hmem
    have hplaced := h.placed
    rw [hsplit] at hplaced
    have hslice : slice s.text found.range.start found.range.stop = old := by
      have hpay := of_decide_eq_true hp
      rw [payload, if_pos ⟨hne.le, h.placed.start found hmem, hstop⟩] at hpay
      exact Option.some.inj hpay
    have hmap := renamed_split (utf8Len new) hplaced
    rw [hlen, ← hsplit] at hmap
    have hguard : ¬ (found.range.stop < found.range.start ∨ utf8Len s.text < found.range.stop) := by
      have := hstop.le
      omega
    refine .inr ⟨l, found, l', hsplit, hslice, ?_⟩
    simp only [replaceElementPayload, hfind, hget, if_neg hguard, hmap]
    refine ⟨trivial, trivial, fun hnew => ?_⟩
    apply atomic_sortElements
    exact atomic_clampPosOutOfElements (s := { s with
      text := splice s.text found.range.start found.range.stop new
      wrapCache := none
      preferredCol := none
      elements := _ }) (placed_renamed hplaced hnew) _

/-! ### Elements given with a new text -/

lemma pushElement_text (range : Range) : (s.pushElement range).text = s.text := by
  simp only [pushElement]
  split
  · rfl
  · rfl

/-- **The elements given are pushed in order**, rounded to boundaries, less those that are empty. -/
theorem ranges_pushElements (ranges : List Range) :
    (ranges.foldl pushElement s).text = s.text ∧
      (ranges.foldl pushElement s).elements.map (·.range) = s.elements.map (·.range) ++
          (ranges.map s.clampRange).filter fun r => decide (r.start < r.stop) := by
  induction ranges generalizing s with
  | nil => exact ⟨rfl, (List.append_nil _).symm⟩
  | cons range ranges ih =>
    obtain ⟨htext, hranges⟩ := ih (s := s.pushElement range)
    rw [List.foldl_cons]
    refine ⟨htext.trans (pushElement_text range), ?_⟩
    have hclamp : (s.pushElement range).clampRange = s.clampRange := by
      funext r
      simp only [clampRange, clampPosToCharBoundary, pushElement_text]
    rw [hranges, hclamp, List.map_cons, List.filter_cons]
    simp only [pushElement]
    by_cases hempty : (s.clampRange range).stop ≤ (s.clampRange range).start
    · rw [if_pos hempty, if_neg (by simpa using hempty)]
    · rw [if_neg hempty, if_pos (by simpa using hempty), List.map_append, List.append_assoc]
      rfl

lemma scattered_pushElements {ranges : List Range} (hnil : s.elements = [])
    (h : ranges.Pairwise Range.Apart) :
    Scattered s.text (ranges.foldl pushElement s).elements := by
  obtain ⟨-, hranges⟩ := ranges_pushElements (s := s) ranges
  rw [hnil, List.map_nil, List.nil_append] at hranges
  have hmem : ∀ e ∈ (ranges.foldl pushElement s).elements,
      e.range ∈ (ranges.map s.clampRange).filter fun r => decide (r.start < r.stop) :=
    fun e he => hranges ▸ List.mem_map_of_mem he
  refine ⟨?_, ?_, ?_⟩
  · rw [← List.pairwise_map, hranges]
    apply List.Pairwise.filter
    exact h.map _ fun a b hab => clampRange_apart hab
  · exact fun e he => of_decide_eq_true (List.mem_filter.mp (hmem e he)).2
  · intro e he
    obtain ⟨r, -, hr⟩ := List.mem_map.mp (List.mem_filter.mp (hmem e he)).1
    rw [← hr]
    exact onBoundaries_clampRange r

end TextArea

end Codex.Tui
