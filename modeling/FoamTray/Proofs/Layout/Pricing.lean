import FoamTray.Proofs.Layout.Order
import FoamTray.Proofs.Layout.Structure

/-! # Prices that are computed again

    The price of an order is computed twice: when it is shown, from the items that the contours
    were placed with, and when the order comes in, from what the catalog has under the names in
    the order. Sums of machine numbers depend on the order of the summands, so the two agree only
    if the same lengths come in the same order.

    * `lengths_save` : the names lead to the lengths of the items, contour by contour.
    * `reprice_orderDocument` : so both computations are given the same.
    * `export_reprices` : the order of a session has the price that was shown.
-/

namespace FoamTray

/-! ## Section 1: Orders of layouts -/

namespace Layout

section Lengths

variable {l : Layout Single} {catalog : Catalog Single}

/-- The lengths that the catalog has under the names of the saved contours are those of the items
    that the contours were placed with, in order. -/
theorem lengths_save (hs : l.placements.Sourced catalog) :
    l.save.contours.map (fun r => (r.itemId, (catalog.find? r.itemId).map (·.cuttingLength))) =
      l.placements.withItems.map fun e => (e.1.itemId, some e.2.cuttingLength) := by
  show (l.placements.withItems.map _).map _ = _
  rw [List.map_map]
  refine List.map_congr_left fun e he => ?_
  have hfound : catalog.find? e.1.itemId = some e.2 := (hs.of_mem_withItems he).1
  simp only [Function.comp_apply, savedContour, hfound, Option.map_some]

/-- An order of contours of the catalog has the same price when it is computed again. -/
theorem reprice_orderDocument (hs : l.placements.Sourced catalog) (s : Settings Single)
    (drawing : Option String) :
    (l.orderDocument s drawing).reprice catalog s.pricing =
      (l.orderDocument s drawing).orderMeta.price := by
  have hlengths := lengths_save hs
  show PricePreview.compute l.save.tray.width l.save.tray.height (l.save.contours.map _)
    l.save.primitives s.pricing = _
  rw [hlengths]
  rfl

/-- The length of the cut of a contour that was placed is known. -/
theorem missingItems_orderDocument (l : Layout Single) (s : Settings Single)
    (drawing : Option String) :
    (l.orderDocument s drawing).orderMeta.price.missingItems = [] := by
  show ((l.placements.withItems.map _).filter _).map _ = []
  simp [List.filter_map]

/-- A layout with nothing wrong in millimetres can be ordered. -/
theorem export_of_isOk (l : Layout Single) {s : Settings Single} {rasterizer : Rasterizer Single}
    (hok : (l.millimetres.report rasterizer s).isOk = true) :
    ∃ order after, l.export rasterizer s = (.ok order, after) := by
  have horder := exportWith_eq l.isUnit_millimetres rasterizer s (order s)
  rw [if_pos hok] at horder
  exact ⟨_, _, horder⟩

/-- An order lists the contours of the layout in millimetres. -/
theorem contours_export {s : Settings Single} {rasterizer : Rasterizer Single}
    {order : OrderDocument} {after : Layout Single}
    (ho : l.export rasterizer s = (.ok order, after)) :
    order.contours = l.millimetres.save.contours := by
  obtain ⟨-, -, rfl⟩ := exportWith_ok ho
  exact congrArg Workspace.contours (save_highlight _ _)

/-- What an order costs depends on what is saved of the layout in millimetres. -/
theorem reprice_of_export {s : Settings Single} {rasterizer : Rasterizer Single}
    {order : OrderDocument} {after : Layout Single} (catalog : Catalog Single)
    (prices : PricingSettings Single) (ho : l.export rasterizer s = (.ok order, after)) :
    order.reprice catalog prices =
      .compute l.millimetres.save.tray.width l.millimetres.save.tray.height
        (l.millimetres.save.contours.map fun c =>
          (c.itemId, (catalog.find? c.itemId).map (·.cuttingLength)))
        l.millimetres.save.primitives prices := by
  obtain ⟨-, -, rfl⟩ := exportWith_ok ho
  rw [← save_highlight]
  rfl

/-- The order of a layout in millimetres, of whatever the layout looked like before. -/
theorem Stocked.reprice_export (h : l.Stocked catalog) (hkeyed : catalog.Keyed)
    {s : Settings Single} {rasterizer : Rasterizer Single} {order : OrderDocument}
    {after : Layout Single} (ho : l.export rasterizer s = (.ok order, after)) :
    order.reprice catalog s.pricing = order.orderMeta.price ∧
      order.orderMeta.price.missingItems = [] := by
  obtain ⟨-, -, rfl⟩ := exportWith_ok ho
  have hmm : l.millimetres.placements.Sourced catalog := sourced_rescaleTo (h.sourced hkeyed) .unit
  -- the order is made of the highlighted layout, and marks are on the contours only
  have hhighlight : ∀ r, (l.millimetres.highlight r).placements.Sourced catalog := by
    intro r
    exact hmm.map fun _ => rfl
  constructor
  · exact reprice_orderDocument (hhighlight _) s _
  · exact missingItems_orderDocument _ s _

end Lengths

end Layout

/-! ## Section 2: Orders of sessions -/

/-- A catalog of a wrench and a ruler, which are cut along 30 cm and 70 cm. -/
def Layout.rulerCatalog : Catalog Single :=
  .ofItems [
    { id := "wrench", article := "W-10", name := "Wrench", category := none, enabled := true
      cuttingLength := 0.3, scaleOverride := 1, drawing := "wrench.svg", preview := none
      silhouette := none, size := ⟨30, 10⟩ },
    { id := "ruler", article := "R-30", name := "Ruler", category := none, enabled := true
      cuttingLength := 0.7, scaleOverride := 1, drawing := "ruler.svg", preview := none
      silhouette := none, size := ⟨300, 20⟩ }] .empty

/-- A session orders its layout, with its own settings. -/
theorem Session.export_eq (x : Session Single) (rasterizer : Rasterizer Single) :
    x.export rasterizer = ((x.layout.export rasterizer x.settings).1,
      { x with layout := (x.layout.export rasterizer x.settings).2 }) := rfl

/-- The order of a session is priced as shown. Whatever was done in the session, with one catalog
    and one list of prices: when the price of an order is computed again from the order and the
    catalog, it is the price in the order, with the same sums of machine numbers, and no contour
    is left out of it. -/
theorem Session.export_reprices {items : List (CatalogItem Single)}
    {categories : Dictionary String} {s : Settings Single} {past rasterizer : Rasterizer Single}
    {x y : Session Single} {order : OrderDocument}
    (h : Reachable (.ofItems items categories) s past x)
    (ho : x.export rasterizer = (.ok order, y)) :
    order.reprice (.ofItems items categories) s.pricing = order.orderMeta.price ∧
      order.orderMeta.price.missingItems = [] := by
  rw [Session.export_eq, h.settings_eq] at ho
  obtain ⟨hanswer, -⟩ := Prod.mk.inj ho
  have hlayout : x.layout.export rasterizer s =
      (.ok order, (x.layout.export rasterizer s).2) := Prod.ext hanswer rfl
  exact h.stocked.reprice_export (Catalog.keyed_ofItems items categories) hlayout

/-- A session in which a wrench and a ruler are left of what was placed. -/
def Session.ruledWrench : Session Single :=
  (make Layout.rulerCatalog .standard).run (fun _ => none)
    [.submit (.place "wrench" (some ⟨100, 50⟩)) 0, .submit (.place "wrench" (some ⟨100, 150⟩)) 1,
      .zoom 2 false, .submit (.place "ruler" (some ⟨150, 400⟩)) 2,
      .submit (.delete (.contour 0)) 3]

/-- Of 100 for cutting, 15 are for the wrench and the ruler, the rest for the outside of the tray. -/
theorem Session.export_reprices_ruledWrench :
    ∃ order y, ruledWrench.export (fun _ => none) = (.ok order, y) ∧
      order.contours.map (·.itemId) = ["wrench", "ruler"] ∧
      order.reprice Layout.rulerCatalog ruledWrench.settings.pricing = order.orderMeta.price ∧
      order.orderMeta.price.cutting = 100 ∧ order.orderMeta.price.total = 1104 := by
  have hreachable : Reachable Layout.rulerCatalog .standard (fun _ => none) ruledWrench :=
    Reachable.make.run _
  have hok : (ruledWrench.layout.millimetres.report (fun _ => none) ruledWrench.settings).isOk =
      true := by decide +kernel
  obtain ⟨order, after, hlayout⟩ := ruledWrench.layout.export_of_isOk hok
  have horder := ruledWrench.export_eq fun _ => none
  rw [hlayout] at horder
  have hprice : order.reprice Layout.rulerCatalog ruledWrench.settings.pricing =
      order.orderMeta.price := by
    rw [hreachable.settings_eq]
    exact (export_reprices hreachable horder).1
  refine ⟨order, _, horder, ?_, hprice, ?_⟩
  · rw [Layout.contours_export hlayout]
    decide +kernel
  · rw [← hprice, Layout.reprice_of_export _ _ hlayout]
    decide +kernel

end FoamTray
