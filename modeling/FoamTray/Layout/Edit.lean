import FoamTray.Layout.Basic

/-! # Edits

    What can be done to a layout. Edits that would push a label away from its contour, or make a
    primitive too large, are corrected and not refused.

    * Zooming: `setZoom`, `atUnitZoom`.
    * Contours: `placeContour`, `moveContour`, `rotateContour`, `rotateContourStep`,
      `snapContour`, `removeContour`.
    * Primitives: `addPrimitive`, `movePrimitive`, `resizePrimitive`, `removePrimitive`.
    * Labels: `attachLabel`, `setLabelText`, `moveLabel`, `removeLabel`; `clampLabel` brings one
      back to its contour.
    * The tray: `resizeTray`, `applyPreset`.
-/

namespace FoamTray

namespace Layout

/-! ## Zooming -/

section Zooming

variable {α : Type} [Scalar α]

/-- The layout with everything on it stretched to another zoom. -/
def rescaleTo (l : Layout α) (target : Zoom α) : Layout α :=
  if target.factor == l.zoom.factor then l
  else
    let ratio := l.zoom.ratioTo target
    { l with
      placements := { l.placements with contours := l.placements.contours.map (·.rescale ratio) }
      primitives := l.primitives.map fun _ p => p.rescale ratio
      labels := l.labels.map fun _ label => label.rescale ratio
      zoom := target }

/-- Changes the zoom, within the bounds of the settings. -/
def setZoom (l : Layout α) (factor : α) (s : Settings α) : Attempt α Unit :=
  match Zoom.ofFactor? factor with
  | some z =>
      if s.zoom.min ≤ factor ∧ factor ≤ s.zoom.max then (.ok (), l.rescaleTo z)
      else (.error (.zoomOutOfRange factor s.zoom.min s.zoom.max), l)
  | none => (.error (.zoomOutOfRange factor s.zoom.min s.zoom.max), l)

/-- Runs an action on the layout stretched to millimetres, and stretches what it leaves behind
    back to the zoom of before. -/
def atUnitZoom {β : Type} (l : Layout α) (action : Layout α → β × Layout α) : β × Layout α :=
  let (b, after) := action (l.rescaleTo .unit)
  (b, after.rescaleTo l.zoom)

end Zooming

variable {α : Type} [Coordinate α]

/-! ## Keeping labels at their contours -/

/-- Moves a label by the least distance that brings it back into the area of its contour. A label
    larger than the area is aligned with its left and upper sides. -/
def clampLabel (l : Layout α) (k : Key) (s : Settings α) : Attempt α Unit :=
  match l.labels.get? k with
  | none => (.error .unknownLabel, l)
  | some label =>
      match l.labelArea? label.owner s with
      | none => (.error (.unknownContour label.owner), l)
      | some area =>
          let (dx, dy) := area.shiftInto (label.bounds s.labels l.zoom)
          let zero := ((0 : Nat) : α)
          if dx == zero && dy == zero then (.ok (), l)
          else (.ok (), { l with labels := l.labels.set k (label.translate dx dy) })

/-- Moves several labels back, one after the other, up to the first that has no contour. -/
def clampLabels (l : Layout α) (s : Settings α) : List Key → Attempt α Unit
  | [] => (.ok (), l)
  | k :: rest => (l.clampLabel k s).andThen fun _ l => l.clampLabels s rest

/-- The keys of the labels of a contour. -/
def labelKeys (l : Layout α) (owner : Nat) : List Key :=
  (l.labels.entries.filter (·.2.owner == owner)).map (·.1)

/-- Moves the labels of a contour back to it. -/
def clampLabelsOf (l : Layout α) (owner : Nat) (s : Settings α) : Attempt α Unit :=
  l.clampLabels s (l.labelKeys owner)

/-! ## Contours -/

/-- Places an item of the catalog; without a position, in the middle of the tray. -/
def placeContour (l : Layout α) (catalog : Catalog α) (itemId : String)
    (position : Option (Point α)) : Attempt α Nat :=
  match catalog.find? itemId with
  | none => (.error (.itemNotFound itemId), l)
  | some item =>
      let position := position.getD <|
        let size := item.footprint item.scaleOverride
        let two := ((2 : Nat) : α)
        (l.tray.rect l.zoom).centroid.translate
          (-l.zoom.toWorkspace size.width / two) (-l.zoom.toWorkspace size.height / two)
      (.ok l.placements.nextId, { l with placements := l.placements.place item position })

/-- Moves a contour, and its labels with it. -/
def moveContour (l : Layout α) (id : Nat) (dx dy : α) (s : Settings α) : Attempt α Unit :=
  match l.placements.find? id with
  | none => (.error (.unknownContour id), l)
  | some c =>
      let (lx, ly) := (c.translate dx dy).lastDelta
      let moved := { l with
        placements := l.placements.update id (·.translate dx dy)
        labels := l.labels.map fun _ label =>
          if label.owner = id then label.translate lx ly else label }
      moved.clampLabelsOf id s

/-- Turns a contour, and moves its labels back to it. -/
def turnContour (l : Layout α) (id : Nat) (rotation : Rotation) (s : Settings α) :
    Attempt α Unit :=
  let turned := { l with placements := l.placements.update id (·.rotateTo rotation l.zoom) }
  turned.clampLabelsOf id s

/-- Turns a contour to an angle; the answer is false, and nothing is changed, if that is not an
    allowed orientation. -/
def rotateContour (l : Layout α) (id : Nat) (angle : α) (s : Settings α) : Attempt α Bool :=
  match l.placements.find? id with
  | none => (.error (.unknownContour id), l)
  | some _ =>
      match (Rotation.ofDegrees? angle).filter (· ∈ s.allowedRotations) with
      | none => (.ok false, l)
      | some rotation => (l.turnContour id rotation s).andThen fun _ l => (.ok true, l)

/-- Turns a contour to the next allowed orientation. -/
def rotateContourStep (l : Layout α) (id : Nat) (s : Settings α) : Attempt α Unit :=
  match l.placements.find? id with
  | none => (.error (.unknownContour id), l)
  | some c => l.turnContour id (c.rotation.nextAllowed s.allowedRotations) s

/-- Turns a contour to the allowed orientation nearest to an angle. -/
def snapContour (l : Layout α) (id : Nat) (angle : α) (s : Settings α) : Attempt α Unit :=
  match l.placements.find? id with
  | none => (.error (.unknownContour id), l)
  | some _ => l.turnContour id (Rotation.snap angle s.allowedRotations) s

/-- Removes a contour with all its labels. -/
def removeContour (l : Layout α) (id : Nat) : Attempt α Unit :=
  match l.placements.find? id with
  | none => (.error (.unknownContour id), l)
  | some _ =>
      (.ok (), { l with
        placements := l.placements.erase id
        labels := (l.labelKeys id).foldl (fun labels k => labels.erase k) l.labels })

/-! ## Primitives -/

/-- Puts a primitive of a size in millimetres at a position, moved into the limits. -/
def insertPrimitive (l : Layout α) (shape : PrimitiveShape α) (position : Point α)
    (s : Settings α) : Layout α :=
  let shape := (shape.clamped s.primitives).scaled l.zoom.factor
  { l with primitives := l.primitives.insert ⟨shape, position, false⟩ }

/-- Adds a primitive of a size in millimetres; without a position, in the middle of the tray. -/
def addPrimitive (l : Layout α) (shape : PrimitiveShape α) (position : Option (Point α))
    (s : Settings α) : Key × Layout α :=
  let position := position.getD <|
    let centre := (l.tray.rect l.zoom).centroid
    let two := ((2 : Nat) : α)
    match shape.clamped s.primitives with
    | .rect w h => centre.translate (-l.zoom.toWorkspace w / two) (-l.zoom.toWorkspace h / two)
    | .circle _ => centre
  (l.primitives.nextKey, l.insertPrimitive shape position s)

/-- Moves a primitive. -/
def movePrimitive (l : Layout α) (k : Key) (dx dy : α) : Attempt α Unit :=
  match l.primitives.get? k with
  | none => (.error .unknownPrimitive, l)
  | some p => (.ok (), { l with primitives := l.primitives.set k (p.translate dx dy) })

/-- The shape in workspace units that a wish for one comes to: it is moved into the limits in
    millimetres. -/
def limitedShape (l : Layout α) (wish : PrimitiveShape α) (s : Settings α) : PrimitiveShape α :=
  ((wish.scaled (((1 : Nat) : α) / l.zoom.factor)).clamped s.primitives).scaled l.zoom.factor

/-- Resizes a primitive to a size in workspace units, moved into the limits; the answer is false,
    and nothing is changed, if it has almost that size. -/
def resizePrimitive (l : Layout α) (k : Key) (wish : PrimitiveShape α) (s : Settings α) :
    Attempt α Bool :=
  match l.primitives.get? k with
  | none => (.error .unknownPrimitive, l)
  | some p =>
      if wish.kind ≠ p.shape.kind then (.error (.kindMismatch p.shape.kind wish.kind), l)
      else
        let shape := l.limitedShape wish s
        if shape.almostEqual p.shape then (.ok false, l)
        else (.ok true, { l with primitives := l.primitives.set k { p with shape := shape } })

/-- Removes a primitive. -/
def removePrimitive (l : Layout α) (k : Key) : Attempt α Unit :=
  match l.primitives.get? k with
  | none => (.error .unknownPrimitive, l)
  | some _ => (.ok (), { l with primitives := l.primitives.erase k })

/-! ## Labels -/

/-- Attaches a label to a contour, at an offset in millimetres from its upper right corner. -/
def attachLabel (l : Layout α) (owner : Nat) (text : String) (offset : Option (α × α))
    (s : Settings α) : Attempt α Key :=
  match l.contourBounds? owner with
  | none => (.error (.unknownContour owner), l)
  | some bounds =>
      let (ox, oy) := offset.getD s.labels.defaultOffset
      let position := ⟨bounds.xMax + l.zoom.toWorkspace ox, bounds.yMin + l.zoom.toWorkspace oy⟩
      let k := l.labels.nextKey
      let attached :=
        { l with labels := l.labels.insert ⟨owner, text, position, s.labels.fontSize⟩ }
      (attached.clampLabel k s).andThen fun _ l => (.ok k, l)

/-- Changes a label, and moves it back to its contour. -/
def editLabel (l : Layout α) (k : Key) (f : Label α → Label α) (s : Settings α) :
    Attempt α Unit :=
  match l.labels.get? k with
  | none => (.error .unknownLabel, l)
  | some label => ({ l with labels := l.labels.set k (f label) }).clampLabel k s

/-- Changes the text of a label. -/
def setLabelText (l : Layout α) (k : Key) (text : String) (s : Settings α) : Attempt α Unit :=
  l.editLabel k ({ · with text := text }) s

/-- Moves a label. -/
def moveLabel (l : Layout α) (k : Key) (dx dy : α) (s : Settings α) : Attempt α Unit :=
  l.editLabel k (·.translate dx dy) s

/-- Removes a label. -/
def removeLabel (l : Layout α) (k : Key) : Attempt α Unit :=
  match l.labels.get? k with
  | none => (.error .unknownLabel, l)
  | some _ => (.ok (), { l with labels := l.labels.erase k })

/-! ## The tray -/

/-- Gives the tray other sides. Nothing that is placed moves. -/
def resizeTray (l : Layout α) (width height : α) (s : Settings α) : Layout α :=
  { l with tray := l.tray.resize width height s.tray }

/-- Gives the tray the sides of a named size. -/
def applyPreset (l : Layout α) (name : String) (s : Settings α) : Attempt α Unit :=
  match Tray.ofPreset? name s.tray with
  | none => (.error (.unknownPreset name), l)
  | some t => (.ok (), l.resizeTray t.width t.height s)

end Layout

end FoamTray
