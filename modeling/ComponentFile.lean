import ComponentFile.Loader.Session
import ComponentFile.Main
import ComponentFile.Proofs.Text.Split
import ComponentFile.Proofs.Text.LineNumbers
import ComponentFile.Proofs.Text.Positions
import ComponentFile.Proofs.Text.LinePieces
import ComponentFile.Proofs.Json.Numerals
import ComponentFile.Proofs.Json.Strings
import ComponentFile.Proofs.Json.Values
import ComponentFile.Proofs.Mapping.Numbers
import ComponentFile.Proofs.Mapping.Segments
import ComponentFile.Proofs.Mapping.Fits
import ComponentFile.Proofs.Mapping.RoundTrip
import ComponentFile.Proofs.Mapping.Calls
import ComponentFile.Proofs.Mapping.InWords
import ComponentFile.Proofs.Mapping.Lookup
import ComponentFile.Proofs.Markup.Chunking
import ComponentFile.Proofs.Markup.Coverage
import ComponentFile.Proofs.Markup.Concatenation
import ComponentFile.Proofs.Markup.RawElements
import ComponentFile.Proofs.Markup.WrittenTags
import ComponentFile.Proofs.Markup.TokenPartition
import ComponentFile.Proofs.Section.Offsets
import ComponentFile.Proofs.Section.Concatenation
import ComponentFile.Proofs.Section.Embedding
import ComponentFile.Proofs.Section.Requests
import ComponentFile.Proofs.Section.LineEndings
import ComponentFile.Proofs.Section.RequestableNames
import ComponentFile.Proofs.Section.ByPosition
import ComponentFile.Proofs.Script.Density
import ComponentFile.Proofs.Files.Names
import ComponentFile.Proofs.Plugin.Dispatch
import ComponentFile.Proofs.Plugin.Output
import ComponentFile.Proofs.Loader.Installations
import ComponentFile.Proofs.Loader.Eviction
import ComponentFile.Proofs.Loader.Runs
import ComponentFile.Proofs.CommandLine.Accounting
