import Chiptune.CommandLine.Sandbox
import Chiptune.Main
import Chiptune.Proofs.Cartridge.KeySplits
import Chiptune.Proofs.Cartridge.SampleSharing
import Chiptune.Proofs.Checked.Cartridge
import Chiptune.Proofs.Checked.History
import Chiptune.Proofs.Checked.Offline
import Chiptune.Proofs.Checked.Pauses
import Chiptune.Proofs.Envelope.Shape
import Chiptune.Proofs.EventStream.RunningStatus
import Chiptune.Proofs.EventStream.Soundness
import Chiptune.Proofs.EventStream.Varlen
import Chiptune.Proofs.Pitch.Rising
import Chiptune.Proofs.Playhead.Expansion
import Chiptune.Proofs.Playhead.Repeats
import Chiptune.Proofs.Playhead.Returning
import Chiptune.Proofs.Sequencer.Accompaniment
import Chiptune.Proofs.Sequencer.Ending
import Chiptune.Proofs.Sequencer.Failures
import Chiptune.Proofs.Sequencer.Following
import Chiptune.Proofs.Sequencer.FreshStart
import Chiptune.Proofs.Sequencer.Interjection
import Chiptune.Proofs.Sequencer.Isolation
import Chiptune.Proofs.Sequencer.LoopCount
import Chiptune.Proofs.Sequencer.LoopsInSeek
import Chiptune.Proofs.Sequencer.Notes
import Chiptune.Proofs.Sequencer.Seek
import Chiptune.Proofs.Sequencer.Songless
import Chiptune.Proofs.Sequencer.Timing
import Chiptune.Proofs.Session.Delivery
import Chiptune.Proofs.Session.Offline
import Chiptune.Proofs.Track.Schedule
import Chiptune.Proofs.Track.Ties
import Chiptune.Proofs.Track.TimedNotes
import Chiptune.Proofs.Voice.Recording
import Chiptune.Proofs.VoicePool.Allocation
import Chiptune.Proofs.VoicePool.Mixing
import Chiptune.Proofs.VoicePool.Reclaiming
import Chiptune.Proofs.VoicePool.Safety
import Chiptune.Proofs.Wav.RoundTrip
