import FoamTray.Document.DrawingJson
import FoamTray.Layout.Invariants
import FoamTray.Main
import FoamTray.Session.Run
import FoamTray.Proofs.Layout.Edit
import FoamTray.Proofs.Layout.Restore
import FoamTray.Proofs.Layout.Consistency
import FoamTray.Proofs.Layout.Command
import FoamTray.Proofs.Layout.Validate
import FoamTray.Proofs.Layout.History
import FoamTray.Proofs.Geometry.Rotation
import FoamTray.Proofs.Layout.Zoom
import FoamTray.Proofs.Layout.Restoration
import FoamTray.Proofs.Layout.Sources
import FoamTray.Proofs.Layout.RoundTrip
import FoamTray.Proofs.Layout.Order
import FoamTray.Proofs.Numeric.Exact
import FoamTray.Proofs.Numeric.Overflow
import FoamTray.Proofs.Layout.Numbering
import FoamTray.Proofs.Layout.Structure
import FoamTray.Proofs.Geometry.Millimetres
import FoamTray.Proofs.Layout.Lengths
import FoamTray.Proofs.Layout.Drift
import FoamTray.Proofs.Layout.Resave
import FoamTray.Proofs.Layout.Findings
import FoamTray.Proofs.Layout.Marks
import FoamTray.Proofs.Geometry.Stretching
import FoamTray.Proofs.Layout.Equivariance
import FoamTray.Proofs.Layout.Frames
import FoamTray.Proofs.Geometry.Fitting
import FoamTray.Proofs.Layout.Belonging
import FoamTray.Proofs.Autosave
import FoamTray.Proofs.Layout.Replacement
import FoamTray.Proofs.Layout.Locality
import FoamTray.Proofs.Layout.Commutation
import FoamTray.Proofs.Settings
import FoamTray.Proofs.Layout.Pricing
import FoamTray.Proofs.Layout.Orientations
import FoamTray.Proofs.Layout.Limits
import FoamTray.Proofs.Geometry.Outlines
import FoamTray.Proofs.Geometry.Placement
import FoamTray.Proofs.Layout.BroadPhase
import FoamTray.Proofs.Layout.Origins
import FoamTray.Proofs.Layout.Handles
import FoamTray.Proofs.Document.RoundTrip
import FoamTray.Proofs.Layout.Turning
import FoamTray.Proofs.Layout.Clamping
import FoamTray.Proofs.Pricing.Toolpath
import FoamTray.Proofs.Pricing.Stalling
import FoamTray.Proofs.Geometry.Snapping
import FoamTray.Proofs.Geometry.NormalForm
import FoamTray.Proofs.Catalog.Usable
import FoamTray.Proofs.Layout.Exclusion
import FoamTray.Proofs.Geometry.Composition
import FoamTray.Proofs.Geometry.KeptBounds
import FoamTray.Proofs.Layout.Attachments
