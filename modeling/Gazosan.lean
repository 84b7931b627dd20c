import Gazosan.Cmdline.RoundTrip
import Gazosan.Diff.Claiming
import Gazosan.Diff.DescriptorMatch
import Gazosan.Diff.Partners
import Gazosan.Diff.Template
import Gazosan.Endings
import Gazosan.Image.BfsLog
import Gazosan.Image.Components
import Gazosan.Parallel
import Gazosan.Perf.Program
import Gazosan.SaveSegments
import Gazosan.Unreported
