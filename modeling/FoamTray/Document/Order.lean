import FoamTray.Layout.Save
import FoamTray.Pricing.Preview

/-! # Orders

    The document that is sent to production, and what comes back.
-/

namespace FoamTray

/-- Whether anything is cut out of the tray. -/
inductive TrayKind where
  /-- Nothing is cut out. -/
  | empty
  /-- Something is cut out. -/
  | withTools
  deriving DecidableEq, Repr

/-- What is ordered, apart from what is cut out. -/
structure OrderMeta where
  /-- The width of the tray. -/
  width : Single
  /-- The height of the tray. -/
  height : Single
  /-- The unit of length. -/
  units : String
  /-- Where positions are seen from. -/
  coordinateSystem : String
  /-- The colour of the foam. -/
  material : String
  /-- Whether anything is cut out. -/
  trayKind : TrayKind
  /-- The price shown. -/
  price : PricePreview
  /-- The layout as it would be saved. -/
  workspace : Workspace Single
  deriving DecidableEq, Repr

/-- An order. -/
structure OrderDocument where
  /-- What is ordered. -/
  orderMeta : OrderMeta
  /-- A drawing of the layout. -/
  drawing : Option String
  /-- The contours. -/
  contours : List (ContourRecord Single)
  /-- The primitives. -/
  primitives : List (PrimitiveRecord Single)
  /-- The labels. -/
  labels : List (LabelRecord Single)
  deriving DecidableEq, Repr

/-- What the order service answers. -/
structure OrderResponse where
  /-- The number of the order, if it has one. -/
  orderId : Option String
  /-- The price part of the answer, with the price confirmed, if it is there. -/
  price : Option (Option Int)
  deriving DecidableEq, Repr

/-- What a person is shown after ordering. -/
structure OrderReceipt where
  /-- The number of the order, if it has one. -/
  orderId : Option String
  /-- The width of the tray. -/
  width : Single
  /-- The height of the tray. -/
  height : Single
  /-- The price. -/
  total : Int
  deriving DecidableEq, Repr

/-- The receipt of an order: the confirmed price, or the price shown if none was confirmed. -/
def OrderDocument.receipt (d : OrderDocument) (r : OrderResponse) : OrderReceipt where
  orderId := r.orderId
  width := d.orderMeta.width
  height := d.orderMeta.height
  total := r.price.join.getD d.orderMeta.price.total

/-- The price of an order, computed from the order and the catalog. -/
def OrderDocument.reprice (d : OrderDocument) (catalog : Catalog Single)
    (s : PricingSettings Single) : PricePreview :=
  let contours := d.contours.map fun c => (c.itemId, (catalog.find? c.itemId).map (·.cuttingLength))
  .compute d.orderMeta.width d.orderMeta.height contours d.primitives s

/-- The order of a layout, with a drawing of it. Whether it can be produced is not asked here. -/
def Layout.orderDocument (l : Layout Single) (s : Settings Single) (drawing : Option String) :
    OrderDocument :=
  let workspace := l.save
  let contours := l.placements.withItems.map fun (c, item) => (c.itemId, some item.cuttingLength)
  let price := PricePreview.compute workspace.tray.width workspace.tray.height contours
    workspace.primitives s.pricing
  { orderMeta := {
      width := workspace.tray.width
      height := workspace.tray.height
      units := "mm"
      coordinateSystem := "origin-top-left"
      material := l.material
      trayKind := if l.isEmpty then .empty else .withTools
      price := price
      workspace := workspace }
    drawing := drawing
    contours := workspace.contours
    primitives := workspace.primitives
    labels := workspace.labels }

end FoamTray
