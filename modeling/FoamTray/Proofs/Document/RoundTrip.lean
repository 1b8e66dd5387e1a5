import FoamTray.Document.ManifestJson
import FoamTray.Document.OrderJson
import FoamTray.Proofs.Geometry.Rotation
import FoamTray.Proofs.Json.Records

/-! # Documents come back from their texts

    A document is written by one set of functions and read by another. Here they are shown to
    agree, record by record: what is read from the text of a record is the record, except that the
    numbers of a primitive are rounded twice on the way. Its kind stands beside them, and until that
    is read they are held in double precision.

    * `numerals` : the numbers of a record. They are asked to be `Numeral.Faithful`.
    * `InRange` : the whole numbers of a document have the bits that their fields have. Names of a
      dictionary are in order (`Dictionary.Ordered`), as it lists them.
    * `reheld` : what becomes of a document with primitives. It is the same document if and only if
      all numbers of primitives are `Steady` (`reheld_eq_self_iff`).
    * `readAs` : there is one such lemma for every record. `level` is the level of nesting at which
      the record stands in its document.
    * `documents_come_back` : workspaces, orders, manifests and settings.
    * `tiedWorkspace_shifted` : a workspace that comes back as another one.
-/

namespace FoamTray

open Json

variable (level : Nat)

/-! ## Section 1: Workspaces -/

/-- The numbers of a tray. -/
def TrayRecord.numerals (t : TrayRecord Single) : List Numeral :=
  [.single t.width, .single t.height, .single t.offset]

/-- The numbers of a contour. -/
def ContourRecord.numerals (c : ContourRecord Single) : List Numeral :=
  [.single c.x, .single c.y, .single c.angle, .single c.scaleOverride]

/-- What stands beside the kind of a primitive. -/
def PrimitiveRecord.numbers : PrimitiveRecord Single → List Single
  | .rect x y w h => [x, y, w, h]
  | .circle x y r => [x, y, r]

/-- The numbers of a primitive. -/
def PrimitiveRecord.numerals (p : PrimitiveRecord Single) : List Numeral := p.numbers.map .single

/-- What a primitive is read as. -/
def PrimitiveRecord.reheld : PrimitiveRecord Single → PrimitiveRecord Single
  | .rect x y w h => .rect x.reheld y.reheld w.reheld h.reheld
  | .circle x y r => .circle x.reheld y.reheld r.reheld

/-- All numbers of a primitive are steady. -/
def PrimitiveRecord.Steady (p : PrimitiveRecord Single) : Prop := ∀ x ∈ p.numbers, x.Steady

/-- The numbers of a label. -/
def LabelRecord.numerals (l : LabelRecord Single) : List Numeral :=
  [.single l.x, .single l.y, .single l.fontSize]

/-- The numbers of a workspace. -/
def Workspace.numerals (w : Workspace Single) : List Numeral :=
  .single w.workspaceScale :: (w.tray.numerals ++ w.contours.flatMap (·.numerals) ++
    w.primitives.flatMap (·.numerals) ++ w.labels.flatMap (·.numerals))

/-- What a workspace is read as. -/
def Workspace.reheld (w : Workspace Single) : Workspace Single :=
  { w with primitives := w.primitives.map (·.reheld) }

/-- All primitives of a workspace are steady. -/
def Workspace.Steady (w : Workspace Single) : Prop := ∀ p ∈ w.primitives, p.Steady

/-- A workspace whose whole numbers have the bits that they are given. -/
structure Workspace.InRange (w : Workspace Single) : Prop where
  version : w.schemaVersion < 2 ^ 32
  contours : ∀ c ∈ w.contours, c.placementId < 2 ^ 64
  labels : ∀ l ∈ w.labels, l.placementId < 2 ^ 64

theorem TrayRecord.readAs {t : TrayRecord Single} (h : ∀ n ∈ t.numerals, n.Faithful)
    (hlevel : level ≤ Reader.maxLevel) : ReadAs TrayRecord.ofJson? level t.toJson t := by
  simp only [numerals, List.forall_mem_cons] at h
  constructor
  · simp [toJson, Readable, ReadableFields, hlevel, h]
  · simp [toJson, reread, rereadFields, ofJson?, record?, h]

theorem ContourRecord.readAs {c : ContourRecord Single} (hid : c.placementId < 2 ^ 64)
    (h : ∀ n ∈ c.numerals, n.Faithful) (hlevel : level ≤ Reader.maxLevel) :
    ReadAs ContourRecord.ofJson? level c.toJson c := by
  simp only [numerals, List.forall_mem_cons] at h
  have hnumber := readAs_natural (level + 1) (le_refl 64) hid
  constructor
  · simp [toJson, Readable, ReadableFields, hlevel, hnumber.readable, h]
  · simp [toJson, reread, rereadFields, ofJson?, record?, hnumber.read, string?, h]

theorem PrimitiveRecord.readAs {p : PrimitiveRecord Single} (h : ∀ n ∈ p.numerals, n.Faithful)
    (hlevel : level ≤ Reader.maxLevel) : ReadAs PrimitiveRecord.ofJson? level p.toJson p.reheld := by
  cases p with
  | rect x y width height =>
    simp only [numerals, numbers, List.forall_mem_map, List.forall_mem_cons] at h
    obtain ⟨hx, hy, hwidth, hheight, -⟩ := h
    obtain ⟨hx, vx, hvx, hxv⟩ := readable_and_held (level + 1) hx
    obtain ⟨hy, vy, hvy, hyv⟩ := readable_and_held (level + 1) hy
    obtain ⟨hwidth, vw, hvw, hwv⟩ := readable_and_held (level + 1) hwidth
    obtain ⟨hheight, vh, hvh, hhv⟩ := readable_and_held (level + 1) hheight
    constructor
    · simp [toJson, Readable, ReadableFields, hlevel, hx, hy, hwidth, hheight]
    · simp [toJson, reread, rereadFields, ofJson?, kindAndFields?, Json.held?, heldFields?, hvx, hvy,
        hvw, hvh, fields?, PrimitiveKind.ofJson?, string?, hxv, hyv, hwv, hhv, reheld]
  | circle x y radius =>
    simp only [numerals, numbers, List.forall_mem_map, List.forall_mem_cons] at h
    obtain ⟨hx, hy, hradius, -⟩ := h
    obtain ⟨hx, vx, hvx, hxv⟩ := readable_and_held (level + 1) hx
    obtain ⟨hy, vy, hvy, hyv⟩ := readable_and_held (level + 1) hy
    obtain ⟨hradius, vr, hvr, hrv⟩ := readable_and_held (level + 1) hradius
    constructor
    · simp [toJson, Readable, ReadableFields, hlevel, hx, hy, hradius]
    · simp [toJson, reread, rereadFields, ofJson?, kindAndFields?, Json.held?, heldFields?, hvx, hvy,
        hvr, fields?, PrimitiveKind.ofJson?, string?, hxv, hyv, hrv, reheld]

theorem PrimitiveRecord.reheld_eq_self_iff {p : PrimitiveRecord Single}
    (h : ∀ n ∈ p.numerals, n.Faithful) : p.reheld = p ↔ p.Steady := by
  have hsteady : p.Steady ↔ ∀ x ∈ p.numbers, x.reheld = x :=
    forall₂_congr fun x hx => (Single.reheld_eq_self_iff (h _ (List.mem_map_of_mem hx))).symm
  rw [hsteady]
  cases p with
  | rect x y width height => simp [reheld, numbers]
  | circle x y radius => simp [reheld, numbers]

theorem LabelRecord.readAs {l : LabelRecord Single} (hid : l.placementId < 2 ^ 64)
    (h : ∀ n ∈ l.numerals, n.Faithful) (hlevel : level ≤ Reader.maxLevel) :
    ReadAs LabelRecord.ofJson? level l.toJson l := by
  simp only [numerals, List.forall_mem_cons] at h
  have hnumber := readAs_natural (level + 1) (le_refl 64) hid
  constructor
  · simp [toJson, Readable, ReadableFields, hlevel, hnumber.readable, h]
  · simp [toJson, reread, rereadFields, ofJson?, record?, hnumber.read, string?, h]

theorem readAs_contours {contours : List (ContourRecord Single)}
    (hids : ∀ c ∈ contours, c.placementId < 2 ^ 64)
    (h : ∀ c ∈ contours, ∀ n ∈ c.numerals, n.Faithful) (hlevel : level + 1 ≤ Reader.maxLevel) :
    ReadAs (list? ContourRecord.ofJson?) level (ofList ContourRecord.toJson contours) contours :=
  readAs_list (by omega) fun c hc => ContourRecord.readAs _ (hids c hc) (h c hc) hlevel

theorem readAs_primitives {primitives : List (PrimitiveRecord Single)}
    (h : ∀ p ∈ primitives, ∀ n ∈ p.numerals, n.Faithful) (hlevel : level + 1 ≤ Reader.maxLevel) :
    ReadAs (list? PrimitiveRecord.ofJson?) level (ofList PrimitiveRecord.toJson primitives)
      (primitives.map (·.reheld)) :=
  readAs_map (by omega) fun p hp => PrimitiveRecord.readAs _ (h p hp) hlevel

theorem map_reheld_eq_self_iff {primitives : List (PrimitiveRecord Single)}
    (h : ∀ p ∈ primitives, ∀ n ∈ p.numerals, n.Faithful) :
    primitives.map (·.reheld) = primitives ↔ ∀ p ∈ primitives, p.Steady :=
  calc primitives.map (·.reheld) = primitives
      ↔ primitives.map (·.reheld) = primitives.map id := by rw [List.map_id]
    _ ↔ ∀ p ∈ primitives, p.reheld = p := List.map_inj_left
    _ ↔ ∀ p ∈ primitives, p.Steady :=
        forall₂_congr fun p hp => PrimitiveRecord.reheld_eq_self_iff (h p hp)

theorem readAs_labels {labels : List (LabelRecord Single)}
    (hids : ∀ l ∈ labels, l.placementId < 2 ^ 64)
    (h : ∀ l ∈ labels, ∀ n ∈ l.numerals, n.Faithful) (hlevel : level + 1 ≤ Reader.maxLevel) :
    ReadAs (list? LabelRecord.ofJson?) level (ofList LabelRecord.toJson labels) labels :=
  readAs_list (by omega) fun l hl => LabelRecord.readAs _ (hids l hl) (h l hl) hlevel

theorem Workspace.readAs {w : Workspace Single} (hrange : w.InRange)
    (h : ∀ n ∈ w.numerals, n.Faithful) (hlevel : level + 2 ≤ Reader.maxLevel) :
    ReadAs Workspace.ofJson? level w.toJson w.reheld := by
  simp only [numerals, List.forall_mem_cons, List.forall_mem_append, List.forall_mem_flatMap] at h
  obtain ⟨hscale, ⟨⟨htray, hcontours⟩, hprimitives⟩, hlabels⟩ := h
  have hversion := readAs_natural (level + 1) (by decide) hrange.version
  replace htray := TrayRecord.readAs (level + 1) htray (by omega)
  replace hcontours := readAs_contours (level + 1) hrange.contours hcontours hlevel
  replace hprimitives := readAs_primitives (level + 1) hprimitives hlevel
  replace hlabels := readAs_labels (level + 1) hrange.labels hlabels hlevel
  have hhere : level ≤ Reader.maxLevel := by omega
  constructor
  · simp [toJson, Readable, ReadableFields, hhere, hversion.readable, htray.readable, hscale,
      hcontours.readable, hprimitives.readable, hlabels.readable]
  · simp [toJson, reread, rereadFields, ofJson?, record?, Json.optional, hversion.read, htray.read,
      string?, hscale, hcontours.read, hprimitives.read, hlabels.read, reheld]

theorem Workspace.reheld_eq_self_iff {w : Workspace Single} (h : ∀ n ∈ w.numerals, n.Faithful) :
    w.reheld = w ↔ w.Steady := by
  simp only [numerals, List.forall_mem_cons, List.forall_mem_append, List.forall_mem_flatMap] at h
  obtain ⟨-, ⟨-, hprimitives⟩, -⟩ := h
  have hparts : w.reheld = w ↔ w.primitives.map (·.reheld) = w.primitives := by
    cases w
    simp [reheld]
  exact hparts.trans (map_reheld_eq_self_iff hprimitives)

/-! ## Section 2: Orders -/

/-- The numbers of a price. -/
def PricePreview.numerals (p : PricePreview) : List Numeral :=
  [.double p.cuttingMeters, .double p.area]

/-- The numbers of what is ordered. -/
def OrderMeta.numerals (m : OrderMeta) : List Numeral :=
  .single m.width :: .single m.height :: (m.price.numerals ++ m.workspace.numerals)

/-- The numbers of an order. -/
def OrderDocument.numerals (d : OrderDocument) : List Numeral :=
  d.orderMeta.numerals ++ d.contours.flatMap (·.numerals) ++ d.primitives.flatMap (·.numerals) ++
    d.labels.flatMap (·.numerals)

/-- What an order is read as. -/
def OrderDocument.reheld (d : OrderDocument) : OrderDocument :=
  { d with
    orderMeta := { d.orderMeta with workspace := d.orderMeta.workspace.reheld }
    primitives := d.primitives.map (·.reheld) }

/-- All primitives of an order are steady. -/
def OrderDocument.Steady (d : OrderDocument) : Prop :=
  d.orderMeta.workspace.Steady ∧ ∀ p ∈ d.primitives, p.Steady

/-- A price whose parts have 64 bits. -/
structure PricePreview.InRange (p : PricePreview) : Prop where
  material : int64Min ≤ p.material ∧ p.material ≤ int64Max
  cutting : int64Min ≤ p.cutting ∧ p.cutting ≤ int64Max
  total : int64Min ≤ p.total ∧ p.total ≤ int64Max

/-- An order whose whole numbers have the bits that they are given. -/
structure OrderDocument.InRange (d : OrderDocument) : Prop where
  price : d.orderMeta.price.InRange
  workspace : d.orderMeta.workspace.InRange
  contours : ∀ c ∈ d.contours, c.placementId < 2 ^ 64
  labels : ∀ l ∈ d.labels, l.placementId < 2 ^ 64

theorem readAs_strings (strings : List String) (hlevel : level ≤ Reader.maxLevel) :
    ReadAs (list? string?) level (ofList Json.string strings) strings :=
  readAs_list hlevel fun s _ => readAs_string _ s

theorem PricePreview.readAs {p : PricePreview} (hrange : p.InRange)
    (h : ∀ n ∈ p.numerals, n.Faithful) (hlevel : level + 1 ≤ Reader.maxLevel) :
    ReadAs PricePreview.ofJson? level p.toJson p := by
  simp only [numerals, List.forall_mem_cons] at h
  obtain ⟨hmeters, harea, -⟩ := h
  replace hmeters := readAs_double (level + 1) hmeters
  replace harea := readAs_double (level + 1) harea
  have hmissing := readAs_strings (level + 1) p.missingItems hlevel
  have hmaterial := readable_integer64 (level + 1) hrange.material
  have hcutting := readable_integer64 (level + 1) hrange.cutting
  have htotal := readable_integer64 (level + 1) hrange.total
  have hhere : level ≤ Reader.maxLevel := Nat.le_of_succ_le hlevel
  -- a price without missing contours has no field for them
  by_cases hnone : p.missingItems = []
  · have htoJson : p.toJson = .object [("material", .integer p.material),
        ("cutting", .integer p.cutting), ("total", .integer p.total),
        ("cuttingMeters", ofDouble p.cuttingMeters), ("areaM2", ofDouble p.area)] := by
      simp [toJson, hnone]
    rw [htoJson]
    constructor
    · exact ⟨hhere, hmaterial, hcutting, htotal, hmeters.readable, harea.readable, trivial⟩
    · simp [reread, rereadFields, ofJson?, record?, hrange.material, hrange.cutting, hrange.total,
        hmeters.read, harea.read, ← hnone]
  · have htoJson : p.toJson = .object [("material", .integer p.material),
        ("cutting", .integer p.cutting), ("total", .integer p.total),
        ("cuttingMeters", ofDouble p.cuttingMeters), ("areaM2", ofDouble p.area),
        ("missingContourIds", ofList .string p.missingItems)] := by
      simp [toJson, hnone]
    rw [htoJson]
    constructor
    · exact ⟨hhere, hmaterial, hcutting, htotal, hmeters.readable, harea.readable,
        hmissing.readable, trivial⟩
    · simp [reread, rereadFields, ofJson?, record?, hrange.material, hrange.cutting, hrange.total,
        hmeters.read, harea.read, hmissing.read]

theorem TrayKind.readAs (k : TrayKind) : ReadAs TrayKind.ofJson? level k.toJson k := by
  cases k <;> exact ⟨trivial, rfl⟩

theorem OrderMeta.readAs {m : OrderMeta} (hprice : m.price.InRange)
    (hworkspace : m.workspace.InRange) (h : ∀ n ∈ m.numerals, n.Faithful)
    (hlevel : level + 3 ≤ Reader.maxLevel) :
    ReadAs OrderMeta.ofJson? level m.toJson { m with workspace := m.workspace.reheld } := by
  simp only [numerals, List.forall_mem_cons, List.forall_mem_append] at h
  obtain ⟨hwidth, hheight, hmeters, hnumerals⟩ := h
  have hkind := TrayKind.readAs (level + 1) m.trayKind
  replace hprice := PricePreview.readAs (level + 1) hprice hmeters (by omega)
  replace hworkspace := Workspace.readAs (level + 1) hworkspace hnumerals hlevel
  have hhere : level ≤ Reader.maxLevel := by omega
  constructor
  · simp [toJson, Readable, ReadableFields, hhere, hwidth, hheight, hkind.readable, hprice.readable,
      hworkspace.readable]
  · simp [toJson, reread, rereadFields, ofJson?, record?, string?, hwidth, hheight, hkind.read,
      hprice.read, hworkspace.read]

theorem OrderDocument.readAs {d : OrderDocument} (hrange : d.InRange)
    (h : ∀ n ∈ d.numerals, n.Faithful) (hlevel : level + 4 ≤ Reader.maxLevel) :
    ReadAs OrderDocument.ofJson? level d.toJson d.reheld := by
  simp only [numerals, List.forall_mem_append, List.forall_mem_flatMap] at h
  obtain ⟨⟨⟨hmeta, hcontours⟩, hprimitives⟩, hlabels⟩ := h
  replace hmeta := OrderMeta.readAs (level + 1) hrange.price hrange.workspace hmeta hlevel
  replace hcontours := readAs_contours (level + 1) hrange.contours hcontours (by omega)
  replace hprimitives := readAs_primitives (level + 1) hprimitives (by omega)
  replace hlabels := readAs_labels (level + 1) hrange.labels hlabels (by omega)
  have hhere : level ≤ Reader.maxLevel := by omega
  constructor
  · simp [toJson, Readable, ReadableFields, hhere, hmeta.readable, hcontours.readable,
      hprimitives.readable, hlabels.readable]
  · simp [toJson, reread, rereadFields, ofJson?, record?, Json.optional, hmeta.read, hcontours.read,
      hprimitives.read, hlabels.read, reheld]

theorem OrderDocument.reheld_eq_self_iff {d : OrderDocument} (h : ∀ n ∈ d.numerals, n.Faithful) :
    d.reheld = d ↔ d.Steady := by
  simp only [numerals, OrderMeta.numerals, List.forall_mem_append, List.forall_mem_cons,
    List.forall_mem_flatMap] at h
  obtain ⟨⟨⟨⟨-, -, -, hworkspace⟩, -⟩, hprimitives⟩, -⟩ := h
  have hparts : d.reheld = d ↔ d.orderMeta.workspace.reheld = d.orderMeta.workspace ∧
      d.primitives.map (·.reheld) = d.primitives := by
    obtain ⟨⟨⟩⟩ := d
    simp [reheld]
  exact hparts.trans (and_congr (Workspace.reheld_eq_self_iff hworkspace)
    (map_reheld_eq_self_iff hprimitives))

/-! ## Section 3: Manifests -/

/-- The names of a dictionary stand in order, each one once. -/
def Dictionary.Ordered {β : Type} (d : Dictionary β) : Prop :=
  d.entries.Pairwise fun e e' => e.1 < e'.1

/-- The numbers of a list of points. -/
def pointNumerals (points : List (Single × Single)) : List Numeral :=
  points.flatMap fun p => [.single p.1, .single p.2]

/-- The numbers of an outline. -/
def ShapeRecord.numerals : ShapeRecord Single → List Numeral
  | .rectangle xMin yMin width height =>
      [.single xMin, .single yMin, .single width, .single height]
  | .polygon vertices => pointNumerals vertices
  | .polygons outlines => outlines.flatMap pointNumerals

/-- The numbers of an item. -/
def ItemRecord.numerals (r : ItemRecord Single) : List Numeral :=
  .single r.cuttingLength ::
    ((r.scaleOverride.toList ++ r.width.toList ++ r.height.toList).map .single ++
      r.shape.toList.flatMap (·.numerals))

/-- The numbers of a manifest. -/
def Manifest.numerals (m : Manifest Single) : List Numeral := m.items.flatMap (·.numerals)

theorem readAs_vertices {vertices : List (Single × Single)}
    (h : ∀ n ∈ pointNumerals vertices, n.Faithful) (hlevel : level + 1 ≤ Reader.maxLevel) :
    ReadAs verticesOfJson? level (ofList .ofPair vertices) vertices := by
  simp only [pointNumerals, List.forall_mem_flatMap, List.forall_mem_cons] at h
  exact readAs_list (by omega) fun p hp => readAs_pair hlevel (h p hp).1 (h p hp).2.1

theorem ShapeRecord.readAs {s : ShapeRecord Single} (h : ∀ n ∈ s.numerals, n.Faithful)
    (hlevel : level + 3 ≤ Reader.maxLevel) : ReadAs ShapeRecord.ofJson? level s.toJson s := by
  have hhere : level ≤ Reader.maxLevel ∧ level + 1 ≤ Reader.maxLevel := by omega
  cases s with
  | rectangle xMin yMin width height =>
    simp only [numerals, List.forall_mem_cons] at h
    constructor
    · simp [toJson, Readable, ReadableFields, hhere, h]
    · simp [toJson, reread, rereadFields, ofJson?, record?, choice?, dataFirst, rectangleOfJson?,
        fields?, h]
  | polygon vertices =>
    have hvertices := readAs_vertices (level + 1) h (by omega)
    constructor
    · simp [toJson, Readable, ReadableFields, hhere, hvertices.readable]
    · simp [toJson, reread, rereadFields, ofJson?, record?, choice?, dataFirst, hvertices.read]
  | polygons outlines =>
    simp only [numerals, List.forall_mem_flatMap] at h
    have houtlines : ReadAs (list? verticesOfJson?) (level + 1)
        (ofList (ofList .ofPair) outlines) outlines :=
      readAs_list (by omega) fun o ho => readAs_vertices _ (h o ho) hlevel
    constructor
    · simp [toJson, Readable, ReadableFields, hhere, houtlines.readable]
    · simp [toJson, reread, rereadFields, ofJson?, record?, choice?, dataFirst, houtlines.read]

theorem AssetsRecord.readAs (a : AssetsRecord) (hlevel : level ≤ Reader.maxLevel) :
    ReadAs AssetsRecord.ofJson? level a.toJson a := by
  constructor
  · simp [toJson, Readable, ReadableFields, hlevel]
  · simp [toJson, reread, rereadFields, ofJson?, record?, Json.optional, string?]

theorem ItemRecord.readAs {r : ItemRecord Single} (h : ∀ n ∈ r.numerals, n.Faithful)
    (hlevel : level + 4 ≤ Reader.maxLevel) : ReadAs ItemRecord.ofJson? level r.toJson r := by
  simp only [numerals, List.forall_mem_cons, List.forall_mem_append, List.forall_mem_map,
    List.forall_mem_flatMap, Option.mem_toList] at h
  obtain ⟨hlength, ⟨⟨hscale, hwidth⟩, hheight⟩, hshape⟩ := h
  have hassets := AssetsRecord.readAs (level + 1) r.assets (by omega)
  have number : ∀ {o : Option Single}, (∀ x ∈ o, (Numeral.single x).Faithful) →
      ∀ x ∈ o, ReadAs single? (level + 1) (ofSingle x) x :=
    fun ho x hx => readAs_single (level + 1) (ho x hx)
  replace hscale := number hscale
  replace hwidth := number hwidth
  replace hheight := number hheight
  replace hshape : ∀ s ∈ r.shape, ReadAs ShapeRecord.ofJson? (level + 1) s.toJson s :=
    fun s hs => ShapeRecord.readAs (level + 1) (hshape s hs) hlevel
  have hhere : level ≤ Reader.maxLevel := by omega
  constructor
  · simp only [toJson, Readable, ReadableFields, readableFields_append,
      readableFields_fieldIfSome, hhere, hassets.readable, readable_ofSingle hlength, true_and,
      and_true]
    exact ⟨⟨⟨⟨fun s _ => trivial, fun x hx => (hscale x hx).readable⟩,
      fun s hs => (hshape s hs).readable⟩, fun x hx => (hwidth x hx).readable⟩,
      fun x hx => (hheight x hx).readable⟩
  · -- field by field, since the reader nests as many steps as there are fields
    obtain ⟨fs, hfs, hid, harticle, hname, hcategory, henabled, hlength', hscale', hassets',
      hshape', hwidth', hheight'⟩ : ∃ fs, r.toJson.reread = .object fs ∧
        required fs "id" string? = some r.id ∧
        withDefault fs "article" string? "" = some r.article ∧
        withDefault fs "name" string? "" = some r.name ∧
        Json.optional fs "category" string? = some r.category ∧
        withDefault fs "enabled" bool? true = some r.enabled ∧
        withDefault fs "cuttingLengthMeters" single? 0 = some r.cuttingLength ∧
        Json.optional fs "scaleOverride" single? = some r.scaleOverride ∧
        withDefault fs "assets" AssetsRecord.ofJson? ⟨"", none⟩ = some r.assets ∧
        Json.optional fs "shape" ShapeRecord.ofJson? = some r.shape ∧
        Json.optional fs "width" single? = some r.width ∧
        Json.optional fs "height" single? = some r.height := by
      refine ⟨_, rfl, ?_⟩
      simp [reread, rereadFields, Json.optional, string?, bool?, hlength, hassets.read,
        elim_nullable rfl hscale, elim_nullable rfl hwidth, elim_nullable rfl hheight,
        elim_nullable rfl hshape]
    rw [hfs, ofJson?, show (Json.object fs).record? _ = some fs from rfl, Option.bind_eq_bind,
      Option.bind_some, hid, harticle, hname, hcategory, henabled, hlength', hscale', hassets',
      hshape', hwidth', hheight']
    rfl

theorem Dictionary.insertEntry_last {β : Type} {name : String} {value : β}
    {entries : List (String × β)} (h : ∀ e ∈ entries, e.1 < name) :
    Dictionary.insertEntry name value entries = entries ++ [(name, value)] := by
  induction entries with
  | nil => rfl
  | cons e entries ih =>
    obtain ⟨n, v⟩ := e
    have hlt : n < name := h (n, v) List.mem_cons_self
    have hne : name ≠ n := by
      rintro rfl
      exact String.lt_irrefl name hlt
    rw [insertEntry, if_neg hne, if_neg (String.lt_asymm hlt),
      ih fun e he => h e (List.mem_cons_of_mem _ he)]
    rfl

/-- Entries that stand in order make up the dictionary that they are the entries of. -/
theorem Dictionary.ofList_entries {β : Type} {d : Dictionary β} (h : d.Ordered) :
    Dictionary.ofList d.entries = d := by
  have insert_all : ∀ rest acc : List (String × β), (acc ++ rest).Pairwise (·.1 < ·.1) →
      rest.foldl (fun d e => Dictionary.insert d e.1 e.2) ⟨acc⟩ =
        (⟨acc ++ rest⟩ : Dictionary β) := by
    intro rest
    induction rest with
    | nil => simp
    | cons e rest ih =>
      intro acc hacc
      have hlast : ∀ e' ∈ acc, e'.1 < e.1 := fun e' he' =>
        (List.pairwise_append.mp hacc).2.2 e' he' e List.mem_cons_self
      have hmoved : acc ++ e :: rest = (acc ++ [e]) ++ rest := by simp
      rw [hmoved] at hacc ⊢
      simpa only [List.foldl_cons, Dictionary.insert, insertEntry_last hlast] using ih _ hacc
  exact insert_all d.entries [] h

theorem Dictionary.readAs {β : Type} {f : β → Json} {read? : Json → Option β} {d : Dictionary β}
    (hordered : d.Ordered) (h : ∀ e ∈ d.entries, ReadAs read? (level + 1) (f e.2) e.2)
    (hlevel : level ≤ Reader.maxLevel) :
    ReadAs (Dictionary.ofJson? read?) level (d.toJson f) d where
  readable := by
    refine ⟨hlevel, readableFields_iff.mpr ?_⟩
    simp only [List.mem_map]
    rintro p ⟨e, he, rfl⟩
    exact (h e he).readable
  read := by
    have hentries : (d.entries.map fun e => (e.1, reread (f e.2))).mapM
        (fun e => (read? e.2).map (e.1, ·)) = some (d.entries.map fun e => e) :=
      mapM_map_eq_some fun e he => by simp [(h e he).read]
    rw [List.map_id'] at hentries
    simp only [toJson, reread, rereadFields_eq_map, List.map_map]
    simp [ofJson?, fields?, Function.comp_def, hentries, ofList_entries hordered]

theorem Manifest.readAs {m : Manifest Single} (hordered : m.categories.Ordered)
    (h : ∀ n ∈ m.numerals, n.Faithful) (hlevel : level + 6 ≤ Reader.maxLevel) :
    ReadAs Manifest.ofJson? level m.toJson m := by
  simp only [numerals, List.forall_mem_flatMap] at h
  have hitems : ReadAs (list? ItemRecord.ofJson?) (level + 1) (ofList ItemRecord.toJson m.items)
      m.items :=
    readAs_list (by omega) fun r hr => ItemRecord.readAs _ (h r hr) hlevel
  have hcategories : ReadAs (Dictionary.ofJson? string?) (level + 1)
      (m.categories.toJson .string) m.categories :=
    Dictionary.readAs (level + 1) hordered (fun e _ => readAs_string _ e.2) (by omega)
  have hhere : level ≤ Reader.maxLevel := by omega
  constructor
  · simp [toJson, Readable, ReadableFields, hhere, hitems.readable, hcategories.readable]
  · simp [toJson, reread, rereadFields, ofJson?, record?, hitems.read, hcategories.read]

/-! ## Section 4: Settings -/

/-- The numbers of a size. -/
def Size.numerals (s : Size Single) : List Numeral := [.single s.width, .single s.height]

/-- The numbers of the settings of trays. -/
def TraySettings.numerals (s : TraySettings Single) : List Numeral :=
  [.single s.defaultWidth, .single s.defaultHeight, .single s.minSize, .single s.offset,
    .single s.padding] ++ s.presets.values.flatMap (·.numerals)

/-- The numbers of the settings of zooming. -/
def ZoomSettings.numerals (s : ZoomSettings Single) : List Numeral :=
  [.single s.default, .single s.min, .single s.max, .single s.step, .single s.coarseStep]

/-- The numbers of the settings of labels. -/
def LabelSettings.numerals (s : LabelSettings Single) : List Numeral :=
  [.single s.fontSize, .single s.defaultOffset.1, .single s.defaultOffset.2,
    .single s.advanceRatio, .single s.lineHeight] ++ s.boundsPadding.toList.map .single

/-- The numbers of the limits of primitives. -/
def PrimitiveLimits.numerals (s : PrimitiveLimits Single) : List Numeral :=
  [.single s.rectMinWidth, .single s.rectMaxWidth, .single s.rectMinHeight,
    .single s.rectMaxHeight, .single s.circleMinRadius, .single s.circleMaxRadius]

/-- The numbers of the settings of prices. -/
def PricingSettings.numerals (s : PricingSettings Single) : List Numeral :=
  [.single s.wasteFactor, .single s.materialPrice, .single s.cuttingPrice,
    .single s.retailFactor, .single s.toolDiameter]

/-- The numbers of settings. -/
def Settings.numerals (s : Settings Single) : List Numeral :=
  .single s.clearance :: (s.tray.numerals ++ s.zoom.numerals ++ s.labels.numerals ++
    s.primitives.numerals ++ s.pricing.numerals)

/-- Settings whose whole numbers have the bits that they are given. -/
structure Settings.InRange (s : Settings Single) : Prop where
  presets : s.tray.presets.Ordered
  alphaThreshold : s.raster.alphaThreshold < 2 ^ 8
  trayPasses : s.pricing.trayPasses < 2 ^ 32
  autosaveDelay : s.autosaveDelay < 2 ^ 64

/-- An orientation is written as an angle that comes to it. -/
theorem Rotation.readAs (r : Rotation) : ReadAs Rotation.ofJson? level r.toJson r := by
  have hfaithful : (Numeral.single r.angle).Faithful := by
    cases r <;> decide +kernel
  exact ⟨readable_ofSingle hfaithful,
    by simp [toJson, ofJson?, single?_reread hfaithful, normalize?_angle]⟩

theorem Size.readAs {s : Size Single} (h : ∀ n ∈ s.numerals, n.Faithful)
    (hlevel : level ≤ Reader.maxLevel) : ReadAs Size.ofJson? level s.toJson s := by
  simp only [numerals, List.forall_mem_cons] at h
  constructor
  · simp [toJson, Readable, ReadableFields, hlevel, h]
  · simp [toJson, reread, rereadFields, ofJson?, record?, h]

theorem TraySettings.readAs {s : TraySettings Single} (hordered : s.presets.Ordered)
    (h : ∀ n ∈ s.numerals, n.Faithful) (hlevel : level + 2 ≤ Reader.maxLevel) :
    ReadAs TraySettings.ofJson? level s.toJson s := by
  simp only [numerals, List.forall_mem_cons, List.forall_mem_append, List.forall_mem_flatMap] at h
  obtain ⟨hnumbers, hsizes⟩ := h
  have hpresets : ReadAs (Dictionary.ofJson? Size.ofJson?) (level + 1)
      (s.presets.toJson Size.toJson) s.presets :=
    Dictionary.readAs (level + 1) hordered
      (fun e he => Size.readAs _ (hsizes e.2 (List.mem_map_of_mem he)) hlevel) (by omega)
  have hhere : level ≤ Reader.maxLevel := by omega
  constructor
  · simp [toJson, Readable, ReadableFields, hhere, hnumbers, hpresets.readable]
  · simp [toJson, reread, rereadFields, ofJson?, record?, hnumbers, hpresets.read]

theorem ZoomSettings.readAs {s : ZoomSettings Single} (h : ∀ n ∈ s.numerals, n.Faithful)
    (hlevel : level ≤ Reader.maxLevel) : ReadAs ZoomSettings.ofJson? level s.toJson s := by
  simp only [numerals, List.forall_mem_cons] at h
  constructor
  · simp [toJson, Readable, ReadableFields, hlevel, h]
  · simp [toJson, reread, rereadFields, ofJson?, record?, h]

theorem LabelSettings.readAs {s : LabelSettings Single} (h : ∀ n ∈ s.numerals, n.Faithful)
    (hlevel : level + 1 ≤ Reader.maxLevel) : ReadAs LabelSettings.ofJson? level s.toJson s := by
  simp only [numerals, List.forall_mem_cons, List.forall_mem_append, List.forall_mem_map,
    Option.mem_toList] at h
  obtain ⟨⟨hfont, hx, hy, hadvance, hline, -⟩, hpadding⟩ := h
  have hoffset := readAs_pair hlevel hx hy
  have hpadding : ReadAs (nullable? single?) (level + 1) (ofOption ofSingle s.boundsPadding)
      s.boundsPadding :=
    readAs_ofOption rfl fun x hx => readAs_single _ (hpadding x hx)
  have hhere : level ≤ Reader.maxLevel := by omega
  constructor
  · simp [toJson, Readable, ReadableFields, hhere, hfont, hadvance, hline, hoffset.readable,
      hpadding.readable]
  · simp [toJson, reread, rereadFields, ofJson?, record?, Json.optional, hfont, hadvance, hline,
      hoffset.read, hpadding.read]

theorem PrimitiveLimits.readAs {s : PrimitiveLimits Single} (h : ∀ n ∈ s.numerals, n.Faithful)
    (hlevel : level ≤ Reader.maxLevel) : ReadAs PrimitiveLimits.ofJson? level s.toJson s := by
  simp only [numerals, List.forall_mem_cons] at h
  constructor
  · simp [toJson, Readable, ReadableFields, hlevel, h]
  · simp [toJson, reread, rereadFields, ofJson?, record?, h]

theorem RasterSettings.readAs {s : RasterSettings} (hrange : s.alphaThreshold < 2 ^ 8)
    (hlevel : level ≤ Reader.maxLevel) : ReadAs RasterSettings.ofJson? level s.toJson s := by
  have hthreshold := readAs_natural (level + 1) (by decide) hrange
  constructor
  · simp [toJson, Readable, ReadableFields, hlevel, hthreshold.readable]
  · simp [toJson, reread, rereadFields, ofJson?, record?, hthreshold.read, bool?]

theorem PricingSettings.readAs {s : PricingSettings Single} (hrange : s.trayPasses < 2 ^ 32)
    (h : ∀ n ∈ s.numerals, n.Faithful) (hlevel : level ≤ Reader.maxLevel) :
    ReadAs PricingSettings.ofJson? level s.toJson s := by
  simp only [numerals, List.forall_mem_cons] at h
  have hpasses := readAs_natural (level + 1) (by decide) hrange
  constructor
  · simp [toJson, Readable, ReadableFields, hlevel, h, hpasses.readable]
  · simp [toJson, reread, rereadFields, ofJson?, record?, h, hpasses.read]

theorem Settings.readAs {s : Settings Single} (hrange : s.InRange)
    (h : ∀ n ∈ s.numerals, n.Faithful) (hlevel : level + 3 ≤ Reader.maxLevel) :
    ReadAs Settings.ofJson? level s.toJson s := by
  simp only [numerals, List.forall_mem_cons, List.forall_mem_append] at h
  obtain ⟨hclearance, ⟨⟨⟨htray, hzoom⟩, hlabels⟩, hprimitives⟩, hpricing⟩ := h
  replace htray := TraySettings.readAs (level + 1) hrange.presets htray hlevel
  replace hzoom := ZoomSettings.readAs (level + 1) hzoom (by omega)
  replace hlabels := LabelSettings.readAs (level + 1) hlabels (by omega)
  replace hprimitives := PrimitiveLimits.readAs (level + 1) hprimitives (by omega)
  have hraster := RasterSettings.readAs (level + 1) hrange.alphaThreshold (by omega)
  replace hpricing := PricingSettings.readAs (level + 1) hrange.trayPasses hpricing (by omega)
  have hdelay := readAs_natural (level + 1) (le_refl 64) hrange.autosaveDelay
  have hrotations : ReadAs (list? Rotation.ofJson?) (level + 1)
      (ofList Rotation.toJson s.allowedRotations) s.allowedRotations :=
    readAs_list (by omega) fun r _ => Rotation.readAs _ r
  have hhere : level ≤ Reader.maxLevel := by omega
  constructor
  · simp [toJson, Readable, ReadableFields, hhere, hclearance, htray.readable, hzoom.readable,
      hlabels.readable, hprimitives.readable, hrotations.readable, hraster.readable,
      hpricing.readable, hdelay.readable]
  · simp [toJson, reread, rereadFields, ofJson?, record?, hclearance, htray.read, hzoom.read,
      hlabels.read, hprimitives.read, hrotations.read, hraster.read, hpricing.read, hdelay.read]

/-! ## Section 5: Texts -/

/-- Each text of a document is read as a given one. -/
def ComesBackAs {β : Type} (toJson : β → Json) (ofJson? : Json → Option β) (x y : β) : Prop :=
  (parse (toJson x).compact).bind ofJson? = some y ∧
    ∀ level, (parse ((toJson x).indented level)).bind ofJson? = some y

/-- A document that is read from each of its texts as it was. -/
def ComesBack {β : Type} (toJson : β → Json) (ofJson? : Json → Option β) (x : β) : Prop :=
  ComesBackAs toJson ofJson? x x

section Texts

variable {β : Type} {toJson : β → Json} {ofJson? : Json → Option β} {x y : β}

theorem Json.ReadAs.comesBackAs (h : ReadAs ofJson? 1 (toJson x) y) :
    ComesBackAs toJson ofJson? x y := by
  refine ⟨?_, fun level => ?_⟩
  · rw [parse_compact h.readable]
    exact h.read
  · rw [parse_indented h.readable level]
    exact h.read

theorem ComesBackAs.comesBack_iff (h : ComesBackAs toJson ofJson? x y) :
    ComesBack toJson ofJson? x ↔ y = x := by
  constructor
  · intro hsame
    exact Option.some.inj (h.1.symm.trans hsame.1)
  · rintro rfl
    exact h

end Texts

/-- **Round trip of documents.** Workspaces, orders, manifests and settings come back from their
    texts: with every combination of parts that are there and parts that are not, with every kind
    of outline and primitive, with whole numbers over their whole range and with any strings. Of
    the numbers with a fraction it is asked that they are finite and that their own texts are read
    as what they were. The numbers of primitives come back rounded twice, and a workspace or an
    order comes back as it was if and only if that changes none of them: none is held half-way to
    the next number without being the even one of the two. -/
theorem documents_come_back (w : Workspace Single) (d : OrderDocument) (m : Manifest Single)
    (s : Settings Single) :
    (w.InRange → (∀ n ∈ w.numerals, n.Faithful) →
      ComesBackAs Workspace.toJson Workspace.ofJson? w w.reheld ∧
        (ComesBack Workspace.toJson Workspace.ofJson? w ↔ w.Steady)) ∧
    (d.InRange → (∀ n ∈ d.numerals, n.Faithful) →
      ComesBackAs OrderDocument.toJson OrderDocument.ofJson? d d.reheld ∧
        (ComesBack OrderDocument.toJson OrderDocument.ofJson? d ↔ d.Steady)) ∧
    (m.categories.Ordered → (∀ n ∈ m.numerals, n.Faithful) →
      ComesBack Manifest.toJson Manifest.ofJson? m) ∧
    (s.InRange → (∀ n ∈ s.numerals, n.Faithful) →
      ComesBack Settings.toJson Settings.ofJson? s) := by
  refine ⟨fun hrange h => ?_, fun hrange h => ?_,
    fun hordered h => (Manifest.readAs 1 hordered h (by decide)).comesBackAs,
    fun hrange h => (Settings.readAs 1 hrange h (by decide)).comesBackAs⟩
  · have hback : ComesBackAs Workspace.toJson Workspace.ofJson? w w.reheld :=
      (Workspace.readAs 1 hrange h (by decide)).comesBackAs
    exact ⟨hback, hback.comesBack_iff.trans (Workspace.reheld_eq_self_iff h)⟩
  · have hback : ComesBackAs OrderDocument.toJson OrderDocument.ofJson? d d.reheld :=
      (OrderDocument.readAs 1 hrange h (by decide)).comesBackAs
    exact ⟨hback, hback.comesBack_iff.trans (OrderDocument.reheld_eq_self_iff h)⟩

/-- A workspace with a primitive of each kind, and a contour and a label whose numbers are as
    great as they can be. -/
def crowdedWorkspace : Workspace Single where
  schemaVersion := 1
  savedAt := some "2024-06-19T15:22:45.5Z"
  tray := ⟨565, 375, 20⟩
  workspaceScale := 1
  material := "blue"
  contours := [⟨2 ^ 64 - 1, "wrench", "", 0.1, -12.5, 270, 1.25⟩]
  primitives := [.rect 30 40.5 8 800, .circle 1e-6 7 4]
  labels := [⟨2 ^ 64 - 1, "\"M10\"\n\x01 \\ ключ", 6, 0, 5⟩]

/-- An order of the workspace, with the least and the greatest price. -/
def extremeOrder : OrderDocument where
  orderMeta := {
    width := 565
    height := 375
    units := "mm"
    coordinateSystem := "origin-top-left"
    material := "blue"
    trayKind := .withTools
    price := ⟨int64Min, 0, int64Max, 5.64, 0.211875, ["wrench"]⟩
    workspace := crowdedWorkspace }
  drawing := none
  contours := crowdedWorkspace.contours
  primitives := crowdedWorkspace.primitives
  labels := crowdedWorkspace.labels

/-- A manifest with an outline of each kind. -/
def outlinedManifest : Manifest Single where
  items := [
    ⟨"block", "A-1", "Block", some "blocks", true, 0.4, none, ⟨"block.svg", none⟩,
      some (.rectangle 0 0 100 60), none, none⟩,
    ⟨"wedge", "", "", none, false, 0.3, some 0.5, ⟨"", some "wedge.png"⟩,
      some (.polygon [(0, 0), (10, 0), (0, 10)]), some 10, some 10⟩,
    ⟨"ring", "A-3", "Ring", none, true, 0, none, ⟨"ring.svg", none⟩,
      some (.polygons [[(0, 0), (9, 0), (0, 9)], [(1, 1), (1, 3), (3, 1)]]), none, none⟩]
  categories := ⟨[("blocks", "Blocks"), ("rings", "Rings")]⟩

theorem documents_come_back_crowded :
    ComesBack Workspace.toJson Workspace.ofJson? crowdedWorkspace ∧
    ComesBack OrderDocument.toJson OrderDocument.ofJson? extremeOrder ∧
    ComesBack Manifest.toJson Manifest.ofJson? outlinedManifest ∧
    ComesBack Settings.toJson Settings.ofJson? .standard := by
  have hworkspace : crowdedWorkspace.InRange :=
    ⟨by decide +kernel, by decide +kernel, by decide +kernel⟩
  have hsteady : crowdedWorkspace.Steady := by
    unfold Workspace.Steady PrimitiveRecord.Steady
    decide +kernel
  have hprice : extremeOrder.orderMeta.price.InRange :=
    ⟨by decide +kernel, by decide +kernel, by decide +kernel⟩
  have hmanifest : outlinedManifest.categories.Ordered := by
    unfold Dictionary.Ordered
    decide +kernel
  have hpresets : (Settings.standard).tray.presets.Ordered := by
    unfold Dictionary.Ordered
    decide +kernel
  obtain ⟨hworkspaces, horders, hmanifests, hsettings⟩ :=
    documents_come_back crowdedWorkspace extremeOrder outlinedManifest .standard
  exact ⟨(hworkspaces hworkspace (by decide +kernel)).2.mpr hsteady,
    (horders ⟨hprice, hworkspace, by decide +kernel, by decide +kernel⟩
      (by decide +kernel)).2.mpr ⟨hsteady, hsteady⟩,
    hmanifests hmanifest (by decide +kernel),
    hsettings ⟨hpresets, by decide +kernel, by decide +kernel, by decide +kernel⟩
      (by decide +kernel)⟩

/-- A workspace with a contour and a circle at `7.038531e-26`. In double precision that is half-way
    to the next number, which is the even one of the two. -/
def tiedWorkspace : Workspace Single where
  schemaVersion := 1
  savedAt := none
  tray := ⟨565, 375, 20⟩
  workspaceScale := 1
  material := "black"
  contours := [⟨0, "wrench", "W-10", ⟨0x15AE43FD⟩, 0, 0, 1⟩]
  primitives := [.circle ⟨0x15AE43FD⟩ 0 4]
  labels := []

/-- All numbers of the workspace are finite and come back from their own texts, and so does the
    place of the contour. The circle comes back at another place. -/
theorem tiedWorkspace_shifted :
    tiedWorkspace.InRange ∧ (∀ n ∈ tiedWorkspace.numerals, n.Faithful) ∧
    ComesBackAs Workspace.toJson Workspace.ofJson? tiedWorkspace
      { tiedWorkspace with primitives := [.circle ⟨0x15AE43FE⟩ 0 4] } ∧
    ¬ ComesBack Workspace.toJson Workspace.ofJson? tiedWorkspace := by
  have hrange : tiedWorkspace.InRange :=
    ⟨by decide +kernel, by decide +kernel, by decide +kernel⟩
  have hfaithful : ∀ n ∈ tiedWorkspace.numerals, n.Faithful := by decide +kernel
  have hback : ComesBackAs Workspace.toJson Workspace.ofJson? tiedWorkspace tiedWorkspace.reheld :=
    (Workspace.readAs 1 hrange hfaithful (by decide)).comesBackAs
  have hreheld : tiedWorkspace.reheld =
      { tiedWorkspace with primitives := [.circle ⟨0x15AE43FE⟩ 0 4] } := by
    decide +kernel
  rw [hreheld] at hback
  exact ⟨hrange, hfaithful, hback, hback.comesBack_iff.not.mpr (by decide +kernel)⟩

end FoamTray
