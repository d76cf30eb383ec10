import Wfmash.Sketch.Basic
import Wfmash.Sketch.Double
import Wfmash.Sketch.ThreadOutput
import Wfmash.Sketch.Prune
import Wfmash.Sketch.Index
import Wfmash.Sketch.Build
import Wfmash.Sketch.SeqIds
import Wfmash.Sketch.Lifecycle
import Wfmash.Sketch.Query
import Wfmash.Align.Pipeline
import Wfmash.Align.MappingRow
import Wfmash.Align.RefWindow
import Wfmash.Align.DoAlignment
import Wfmash.Align.MappingFile
import Wfmash.Align.Completion
