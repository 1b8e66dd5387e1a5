import FoamTray.Proofs.Layout.Findings
import FoamTray.Session

/-! # Marks

    A check and an order run one validation, stretch the layout back afterwards, and differ in
    what they answer. What is marked then is what the report finds fault with, whatever was marked
    before.

    * `mem_offendingContours`, `isOk_iff` : what a report finds fault with, told from its lists.
    * `Report.MarkedIn` : the marks of a layout are those of a report.
    * `markedIn_highlight`, `MarkedIn.rescaleTo` : validating makes them so, and stretching keeps
      them.
    * `order_agrees_with_check` : an order is refused exactly if a check finds something.
-/

namespace FoamTray

/-! ## Section 1: What a report finds fault with -/

theorem mem_sortedIds {ids : List Nat} {id : Nat} : id ∈ sortedIds ids ↔ id ∈ ids := by
  unfold sortedIds
  rw [List.mem_eraseDups, List.mem_mergeSort]

theorem sortedIds_eq_nil_iff {ids : List Nat} : sortedIds ids = [] ↔ ids = [] := by
  rw [List.eq_nil_iff_forall_not_mem, List.eq_nil_iff_forall_not_mem]
  exact forall_congr' fun _ => not_congr mem_sortedIds

namespace Report

variable {r : Report} {id : Nat}

theorem mem_collidingContours :
    id ∈ r.collidingContours ↔ ∃ pair ∈ r.collidingPairs, id = pair.1 ∨ id = pair.2 := by
  unfold collidingContours
  rw [mem_sortedIds, List.mem_flatMap]
  simp

/-- A contour breaks a rule if it is outside or in a pair that is too close. -/
theorem mem_offendingContours : id ∈ r.offendingContours ↔
    id ∈ r.outOfBoundsContours ∨ ∃ pair ∈ r.collidingPairs, id = pair.1 ∨ id = pair.2 := by
  unfold offendingContours
  rw [mem_sortedIds, List.mem_append, mem_collidingContours, or_comm]

/-- A report is fine if it names no offender: the counts leave nobody out. -/
theorem isOk_iff : r.isOk = true ↔ r.offendingContours = [] ∧ r.outOfBoundsPrimitives = [] := by
  unfold isOk LayoutIssues.isEmpty issues offendingContours
  simp only [Bool.and_eq_true, beq_iff_eq, List.length_eq_zero_iff]
  rw [sortedIds_eq_nil_iff, List.append_eq_nil_iff]
  constructor
  · rintro ⟨⟨houtside, hclose⟩, hprimitives⟩
    exact ⟨⟨hclose, houtside⟩, hprimitives⟩
  · rintro ⟨⟨hclose, houtside⟩, hprimitives⟩
    exact ⟨⟨houtside, hclose⟩, hprimitives⟩

end Report

/-! ## Section 2: Marks of a layout -/

/-- The marks of a layout are those of a report: it marks what it finds fault with, and nothing is
    marked exactly if it is fine. -/
structure Report.MarkedIn (r : Report) (l : Layout Single) : Prop where
  /-- A contour is marked if it is outside or in a pair that is too close. -/
  contours : ∀ c ∈ l.placements.contours, c.highlighted = true ↔
    c.id ∈ r.outOfBoundsContours ∨ ∃ pair ∈ r.collidingPairs, c.id = pair.1 ∨ c.id = pair.2
  /-- A primitive is marked if it is outside. -/
  primitives : ∀ e ∈ l.primitives.entries,
    e.2.highlighted = true ↔ e.1 ∈ r.outOfBoundsPrimitives
  /-- Nothing is marked exactly if the report is fine. -/
  isOk_iff : r.isOk = true ↔ (∀ c ∈ l.placements.contours, c.highlighted = false) ∧
    ∀ e ∈ l.primitives.entries, e.2.highlighted = false

namespace Layout

variable {l : Layout Single} {r : Report} {rasterizer : Rasterizer Single} {s : Settings Single}

/-- Only contours of the layout are found fault with. -/
theorem mem_ids_of_offending {id : Nat} (h : id ∈ (l.report rasterizer s).offendingContours) :
    id ∈ l.placements.ids := by
  rcases Report.mem_offendingContours.mp h with houtside | ⟨⟨i, j⟩, hpair, hid⟩
  · obtain ⟨c, hc, rfl⟩ := List.mem_map.mp houtside
    exact List.mem_map_of_mem (List.mem_filter.mp hc).1
  · obtain ⟨a, b, hsub, ⟨rfl, rfl⟩, -⟩ := mem_collidingPairs.mp hpair
    have ha : a.id ∈ l.placements.ids := List.mem_map_of_mem (hsub.subset (by simp))
    have hb : b.id ∈ l.placements.ids := List.mem_map_of_mem (hsub.subset (by simp))
    rcases hid with rfl | rfl
    · exact ha
    · exact hb

/-- Only primitives of the layout are. -/
theorem mem_keys_of_outOfBounds {k : Key}
    (h : k ∈ (l.report rasterizer s).outOfBoundsPrimitives) : k ∈ l.primitives.keys := by
  obtain ⟨e, he, rfl⟩ := List.mem_map.mp h
  exact List.mem_map_of_mem (List.mem_filter.mp he).1

theorem ids_highlight (l : Layout Single) (r : Report) :
    (l.highlight r).placements.ids = l.placements.ids :=
  List.map_map

theorem entries_highlight (l : Layout Single) (r : Report) :
    (l.highlight r).primitives.entries = l.primitives.entries.map fun e =>
      (e.1, { e.2 with highlighted := decide (e.1 ∈ r.outOfBoundsPrimitives) }) :=
  SlotTable.entries_map _ _

theorem highlighted_contour {c : Contour Single}
    (hc : c ∈ (l.highlight r).placements.contours) :
    c.highlighted = decide (c.id ∈ r.offendingContours) := by
  obtain ⟨c', -, rfl⟩ := List.mem_map.mp hc
  rfl

theorem highlighted_primitive {e : Key × Primitive Single}
    (he : e ∈ (l.highlight r).primitives.entries) :
    e.2.highlighted = decide (e.1 ∈ r.outOfBoundsPrimitives) := by
  rw [entries_highlight] at he
  obtain ⟨e', -, rfl⟩ := List.mem_map.mp he
  rfl

/-- Validating marks what the report finds fault with, and takes all other marks away. -/
theorem markedIn_highlight (l : Layout Single) (rasterizer : Rasterizer Single)
    (s : Settings Single) :
    (l.report rasterizer s).MarkedIn (l.highlight (l.report rasterizer s)) := by
  have hids := fun id => @mem_ids_of_offending l rasterizer s id
  have hkeys := fun k => @mem_keys_of_outOfBounds l rasterizer s k
  generalize l.report rasterizer s = r at hids hkeys
  refine ⟨?_, ?_, ?_⟩
  · intro c hc
    rw [highlighted_contour hc, decide_eq_true_iff]
    exact Report.mem_offendingContours
  · intro e he
    rw [highlighted_primitive he, decide_eq_true_iff]
  · rw [Report.isOk_iff]
    constructor
    · rintro ⟨hcontours, hprimitives⟩
      refine ⟨fun c hc => ?_, fun e he => ?_⟩
      · simp [highlighted_contour hc, hcontours]
      · simp [highlighted_primitive he, hprimitives]
    -- whoever is found fault with is there to be marked
    · rintro ⟨hcontours, hprimitives⟩
      constructor
      · refine List.eq_nil_iff_forall_not_mem.mpr fun id hid => ?_
        have hmem := hids id hid
        rw [← ids_highlight l r] at hmem
        obtain ⟨c, hc, rfl⟩ := List.mem_map.mp hmem
        have hunmarked := hcontours c hc
        rw [highlighted_contour hc, decide_eq_false_iff_not] at hunmarked
        exact hunmarked hid
      · refine List.eq_nil_iff_forall_not_mem.mpr fun k hk => ?_
        obtain ⟨e, he, rfl⟩ := List.mem_map.mp (hkeys k hk)
        have hunmarked := hprimitives _ (by
          rw [entries_highlight]
          exact List.mem_map_of_mem he)
        rw [decide_eq_false_iff_not] at hunmarked
        exact hunmarked hk

end Layout

/-- Stretching moves and resizes, and leaves the marks. -/
theorem Report.MarkedIn.rescaleTo {r : Report} {l : Layout Single} (h : r.MarkedIn l)
    (z : Zoom Single) : r.MarkedIn (l.rescaleTo z) := by
  by_cases heq : (z.factor == l.zoom.factor) = true
  · have hsame : l.rescaleTo z = l := if_pos heq
    rw [hsame]
    exact h
  · have hcontours : (l.rescaleTo z).placements.contours =
        l.placements.contours.map (·.rescale (l.zoom.ratioTo z)) := by
      unfold Layout.rescaleTo
      rw [if_neg heq]
    have hentries : (l.rescaleTo z).primitives.entries =
        l.primitives.entries.map fun e => (e.1, e.2.rescale (l.zoom.ratioTo z)) := by
      unfold Layout.rescaleTo
      rw [if_neg heq]
      exact SlotTable.entries_map _ _
    refine ⟨?_, ?_, ?_⟩
    · rw [hcontours, List.forall_mem_map]
      exact h.contours
    · rw [hentries, List.forall_mem_map]
      exact h.primitives
    · rw [hcontours, hentries, List.forall_mem_map, List.forall_mem_map]
      exact h.isOk_iff

/-! ## Section 3: Checks and orders -/

namespace Layout

/-- A check of any layout, at any zoom, answers a report and leaves the zoom as it was. An order of
    the same layout leaves the same layout behind; it is refused exactly if the report is not fine,
    and then with the issues of the report, of which there are some. What is marked afterwards is
    what the report finds fault with. An order that is not refused is priced, and with a pocket whose
    toolpath does not end (`Toolpath.toolpaths_end_iff`) the program is at that without end; the
    layout here is the one it is to leave behind. -/
theorem order_agrees_with_check (l : Layout Single) (rasterizer : Rasterizer Single)
    (s : Settings Single) :
    ∃ r after, l.check rasterizer s = (.ok r, after) ∧ after.zoom = l.zoom ∧ r.MarkedIn after ∧
      (l.export rasterizer s).2 = after ∧
      ((∃ e, (l.export rasterizer s).1 = .error e) ↔ r.isOk = false) ∧
      (r.isOk = false → (l.export rasterizer s).1 = .error (.notProducible r.issues) ∧
        r.issues.isEmpty = false) := by
  have hz := l.isUnit_millimetres
  have hexport := exportWith_eq hz rasterizer s (Layout.order s)
  refine ⟨l.millimetres.report rasterizer s, _, check_eq hz rasterizer s, zoom_rescaleTo _ _,
    (l.millimetres.markedIn_highlight rasterizer s).rescaleTo l.zoom, ?_, ?_, ?_⟩
  · unfold Layout.export
    rw [hexport]
  · unfold Layout.export
    rw [hexport]
    cases (l.millimetres.report rasterizer s).isOk with
    | true => simp
    | false => simp
  · intro hbad
    unfold Layout.export
    rw [hexport, hbad]
    exact ⟨rfl, hbad⟩

-- a circle that reaches over the edge of the tray is reported, marked and not ordered
example :
    let l := ((make (.default .standard)).apply (.addPrimitive (.circle 10) (some ⟨25, 100⟩))
      (.ofItems [] .empty) .standard).2
    let (answer, after) := l.export (fun _ => none) .standard
    answer.toOption = none ∧ after.primitives.values.map (·.highlighted) = [true] ∧
      (l.check (fun _ => none) .standard).1.toOption.map (·.isOk) = some false := by
  decide +kernel

end Layout

end FoamTray
