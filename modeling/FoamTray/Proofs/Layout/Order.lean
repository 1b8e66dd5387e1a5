import FoamTray.Proofs.Layout.RoundTrip
import FoamTray.Session

/-! # Orders that come back

    An order carries the layout at whole millimetres, while the layout is validated as it is. So
    an order that comes back need not be producible any more.

    * `restore_save` : restoring a saved layout in millimetres, and checking what comes back.
    * `edgePocket_not_producible` : an order of a pocket at the edge that is refused when it comes
      back.
    * `order_comes_back` : whether an order is refused then is told by the rounded layout.
-/

namespace FoamTray.Layout

/-! ## Section 1: Checking what comes back -/

section Saved

variable {l : Layout Single} {catalog : Catalog Single} {s : Settings Single}

/-- A saved layout comes back on any new tray with nothing left out, and a check of it finds the
    issues of the rounded layout. -/
theorem restore_save (hz : l.zoom = .unit) (hl : l.Consistent)
    (hs : l.placements.Sourced catalog) (tray : Tray Single) (rasterizer : Rasterizer Single) :
    ∃ summary m report after,
      (make tray).restore l.save catalog s = (.ok summary, m) ∧ summary.isComplete = true ∧
      m.check rasterizer s = (.ok report, after) ∧
      report.issues = ((l.rounded s).report rasterizer s).issues := by
  let m := l.save.layout catalog s .unit (make tray).placements.nextId
  have hm : m.zoom = .unit := rfl
  have hversion : l.save.schemaVersion = schemaVersion := rfl
  have hrestore := (make tray).restore_eq hversion catalog s
  rw [zoom_rescaleTo, show (make tray).zoom = .unit from rfl,
    show (l.save.layout catalog s .unit (make tray).placements.nextId).rescaleTo .unit = m from
      millimetres_of_unit hm] at hrestore
  have hcheck := check_eq m.isUnit_millimetres rasterizer s
  rw [millimetres_of_unit hm] at hcheck
  exact ⟨_, m, _, _, hrestore, isComplete_save hl hs, hcheck,
    (looksLike_save hz hl hs s _).issues_eq rasterizer s⟩

end Saved

/-! ## Section 2: Orders -/

/-- The order of a producible layout is made of the layout in millimetres. -/
theorem export_ok {l after : Layout Single} {rasterizer : Rasterizer Single} {s : Settings Single}
    {order : OrderDocument} (h : l.export rasterizer s = (.ok order, after)) :
    (l.millimetres.report rasterizer s).isOk = true ∧
      order.orderMeta.workspace = l.millimetres.save := by
  obtain ⟨-, hok, rfl⟩ := exportWith_ok h
  exact ⟨hok, save_highlight _ _⟩

/-- A tray with a round pocket that touches the right side of the safe area: 10.5 mm from its
    centre, which lies 546.5 mm from the corner of the tray. -/
def edgePocket : Layout Single :=
  (make (.default .standard)).run (.ofItems [] .empty) .standard (fun _ => none)
    [.command (.addPrimitive (.circle 10.5) (some ⟨566.5, 100⟩))]

/-- The pocket is ordered, comes back with a radius of 11 mm, 547 mm from the corner, and then
    reaches out of the safe area. -/
theorem edgePocket_not_producible :
    Reachable (.ofItems [] .empty) .standard (fun _ => none) edgePocket ∧
    ∃ order after summary m report after',
      edgePocket.export (fun _ => none) .standard = (.ok order, after) ∧
      (make (.default .standard)).restore order.orderMeta.workspace (.ofItems [] .empty) .standard =
        (.ok summary, m) ∧
      m.check (fun _ => none) .standard = (.ok report, after') ∧ report.isOk = false := by
  have hreachable : Reachable (.ofItems [] .empty) .standard (fun _ => none) edgePocket :=
    (Reachable.make (.default .standard)).run _
  have hok : (edgePocket.millimetres.report (fun _ => none) .standard).isOk = true := by
    decide +kernel
  have horder := exportWith_eq edgePocket.isUnit_millimetres (fun _ => none) .standard
    (Layout.order .standard)
  rw [if_pos hok] at horder
  obtain ⟨summary, m, report, after', hrestore, -, hcheck, hissues⟩ :=
    restore_save (s := .standard) (zoom_rescaleTo edgePocket .unit)
      hreachable.attainable.consistent.millimetres
      (sourced_rescaleTo (hreachable.sourced (Catalog.keyed_ofItems _ _)) .unit)
      (.default .standard) (fun _ => none)
  -- what comes back has the issues of the rounded layout, and these can be computed
  refine ⟨hreachable, _, _, summary, m, report, after', horder, ?_, hcheck, ?_⟩
  · rw [(export_ok horder).2]
    exact hrestore
  · unfold Report.isOk
    rw [show report.issues = _ from hissues]
    decide +kernel

/-- An order of a layout of one catalog comes back on any new tray with nothing left out. A check
    of what comes back finds the issues of the rounded layout, so it is fine exactly if that is,
    and in particular if rounding changes nothing. The layout may have been checked with another
    rasterizer before. -/
theorem order_comes_back {items : List (CatalogItem Single)} {categories : Dictionary String}
    {s : Settings Single} {past rasterizer : Rasterizer Single} {l after : Layout Single}
    {order : OrderDocument} (h : Reachable (.ofItems items categories) s past l)
    (ho : l.export rasterizer s = (.ok order, after)) (tray : Tray Single) :
    ∃ summary m report after',
      (make tray).restore order.orderMeta.workspace (.ofItems items categories) s =
        (.ok summary, m) ∧ summary.isComplete = true ∧
      m.check rasterizer s = (.ok report, after') ∧
      report.issues = ((l.millimetres.rounded s).report rasterizer s).issues ∧
      (report.isOk = true ↔ ((l.millimetres.rounded s).report rasterizer s).isOk = true) ∧
      (l.millimetres.Whole s → report.isOk = true) := by
  have hkeyed := Catalog.keyed_ofItems items categories
  -- the order is made of the highlighted layout in millimetres, and marks are not saved
  obtain ⟨hok, hworkspace⟩ := export_ok ho
  obtain ⟨summary, m, report, after', hrestore, hcomplete, hcheck, hissues⟩ :=
    restore_save (s := s) (zoom_rescaleTo l .unit) h.attainable.consistent.millimetres
      (sourced_rescaleTo (h.sourced hkeyed) .unit) tray rasterizer
  have hiff : report.isOk = ((l.millimetres.rounded s).report rasterizer s).isOk := by
    unfold Report.isOk
    rw [hissues]
    rfl
  refine ⟨summary, m, report, after', ?_, hcomplete, hcheck, hissues, ?_, ?_⟩
  · rw [hworkspace]
    exact hrestore
  · rw [hiff]
  · intro hwhole
    rw [hiff, hwhole.rounded_eq]
    exact hok

/-- A tray with a wrench and a round pocket at whole millimetres. -/
def wholeWrench : Layout Single :=
  (make (.default .standard)).run wrenchCatalog .standard (fun _ => none)
    [.command (.place "wrench" (some ⟨100, 50⟩)),
      .command (.addPrimitive (.circle 10) (some ⟨300, 100⟩))]

theorem order_comes_back_wholeWrench :
    ∃ order after, wholeWrench.export (fun _ => none) .standard = (.ok order, after) ∧
      ∃ summary m report after',
        (make (.default .standard)).restore order.orderMeta.workspace wrenchCatalog .standard =
          (.ok summary, m) ∧
        m.check (fun _ => none) .standard = (.ok report, after') ∧ report.isOk = true := by
  have hreachable : Reachable wrenchCatalog .standard (fun _ => none) wholeWrench :=
    (Reachable.make (.default .standard)).run _
  have hok : (wholeWrench.millimetres.report (fun _ => none) .standard).isOk = true := by
    decide +kernel
  have horder := exportWith_eq wholeWrench.isUnit_millimetres (fun _ => none) .standard
    (Layout.order .standard)
  rw [if_pos hok] at horder
  have hwhole : wholeWrench.millimetres.Whole .standard :=
    ⟨by decide +kernel, by decide +kernel, by decide +kernel, by decide +kernel⟩
  obtain ⟨summary, m, report, after', hrestore, -, hcheck, -, -, hfine⟩ :=
    order_comes_back hreachable horder (.default .standard)
  exact ⟨_, _, horder, summary, m, report, after', hrestore, hcheck, hfine hwhole⟩

end FoamTray.Layout
