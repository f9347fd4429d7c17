import LiveTracks.Settings.Load
import LiveTracks.Session
import LiveTracks.Proofs.FlatStore
import LiveTracks.Proofs.History
import LiveTracks.Proofs.Coverage
import LiveTracks.Proofs.Linearization
import LiveTracks.Proofs.TopReports
import LiveTracks.Proofs.Lifetimes
import LiveTracks.Proofs.Refresh
import LiveTracks.Proofs.Provenance
import LiveTracks.Proofs.Transparency
import LiveTracks.Proofs.Shares
import LiveTracks.Proofs.Unmissed
import LiveTracks.Proofs.Orphans
import LiveTracks.Proofs.Refusal
import LiveTracks.Proofs.Separation
import LiveTracks.Proofs.Writers
import LiveTracks.Proofs.SweepSeries
import LiveTracks.Proofs.Underway
import LiveTracks.Proofs.Background
import LiveTracks.Proofs.Delivery
import LiveTracks.Proofs.KnownCameras
import LiveTracks.Proofs.Breakdowns
import LiveTracks.Proofs.Watchers
import LiveTracks.Proofs.Handovers
import LiveTracks.Proofs.Ranking
import LiveTracks.Proofs.SettingsRoundTrip
import LiveTracks.Proofs.Generations
import LiveTracks.Proofs.Rereading
import LiveTracks.Proofs.Retirement
import LiveTracks.Proofs.Passes
import LiveTracks.Proofs.SettingsFiles
import LiveTracks.Proofs.SummaryTable
