import TreeSketch.Main
import TreeSketch.Proofs.Output
import TreeSketch.Proofs.Capacity
import TreeSketch.Proofs.Depth
import TreeSketch.Proofs.Levels
import TreeSketch.Proofs.Composition
import TreeSketch.Proofs.StoredTree
import TreeSketch.Proofs.Enumeration
import TreeSketch.Proofs.Horizon
import TreeSketch.Proofs.Spelling
import TreeSketch.Proofs.ReadBack
import TreeSketch.Proofs.Grammar
import TreeSketch.Proofs.Streams
import TreeSketch.Proofs.Newlines
import TreeSketch.Proofs.Links
import TreeSketch.Proofs.Contents
import TreeSketch.Proofs.AsText
import TreeSketch.Proofs.LastLine
import TreeSketch.Proofs.Accounts
import TreeSketch.Proofs.Rows
