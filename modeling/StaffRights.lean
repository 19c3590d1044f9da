import StaffRights.Document.Entity
import StaffRights.Document.Permissions
import StaffRights.Document.Refusal
import StaffRights.Document.Snapshot
import StaffRights.Document.Staff
import StaffRights.Hierarchy.Entities
import StaffRights.Hierarchy.Lemmas
import StaffRights.Hierarchy.Staff
import StaffRights.Inspection
import StaffRights.Json.Decoding
import StaffRights.Json.Printer
import StaffRights.Main
import StaffRights.Permissions.Record
import StaffRights.Permissions.Text
import StaffRights.Proofs.Results
import StaffRights.Proofs.Hierarchy.Apart
import StaffRights.Proofs.Service.Delegation
import StaffRights.Proofs.Service.Transparency
import StaffRights.Service.Call
import StaffRights.Snapshot.Replay
import StaffRights.Text.Quoted
import StaffRights.Tree.Guard
import StaffRights.Tree.Listing
import StaffRights.Uuid.Reader
import StaffRights.Proofs.Service.Administration
import StaffRights.Proofs.Hierarchy.Order
import StaffRights.Proofs.Snapshot.Records
import StaffRights.Proofs.Snapshot.Loading
import StaffRights.Proofs.Snapshot.Acceptance
import StaffRights.Proofs.Snapshot.Capture
import StaffRights.Proofs.Snapshot.RoundTrip
import StaffRights.Proofs.Tree.Institution
import StaffRights.Proofs.Tree.Part
import StaffRights.Proofs.Tree.LeavesFirst
import StaffRights.Proofs.Hierarchy.Isolation
import StaffRights.Proofs.Hierarchy.Persistence
import StaffRights.Proofs.Hierarchy.Protection
import StaffRights.Proofs.Hierarchy.Primitives
import StaffRights.Proofs.Hierarchy.Atomicity
import StaffRights.Proofs.Service.Requests
import StaffRights.Proofs.Service.Concealment
import StaffRights.Proofs.Service.Recipients
import StaffRights.Proofs.Hierarchy.Invalidations
import StaffRights.Proofs.Service.Deliveries
import StaffRights.Proofs.Hierarchy.LastMembership
import StaffRights.Proofs.Tree.Inheritance
import StaffRights.Proofs.Hierarchy.MembershipRights
import StaffRights.Proofs.Service.Grants
import StaffRights.Proofs.Hierarchy.Branches
import StaffRights.Proofs.Hierarchy.Cascade
import StaffRights.Proofs.Hierarchy.Moves
import StaffRights.Proofs.Hierarchy.Resolution
import StaffRights.Proofs.Hierarchy.Admission
import StaffRights.Proofs.Hierarchy.MovedRights
import StaffRights.Proofs.Hierarchy.Undoing
import StaffRights.Proofs.Hierarchy.ForeignParents
import StaffRights.Proofs.Tree.Nesting
import StaffRights.Proofs.Hierarchy.Nesting
import StaffRights.Proofs.Json.Forms
import StaffRights.Proofs.Document.Permissions
import StaffRights.Proofs.Json.Written
import StaffRights.Proofs.Document.RoundTrip
import StaffRights.Proofs.Inspection
