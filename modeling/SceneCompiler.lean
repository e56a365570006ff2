import SceneCompiler.Main
import SceneCompiler.Proofs.Batch.ClassNames
import SceneCompiler.Proofs.CSharp.Floats
import SceneCompiler.Proofs.CommandLine.Outputs
import SceneCompiler.Proofs.Compile.Constants
import SceneCompiler.Proofs.Compile.Description
import SceneCompiler.Proofs.Compile.EntryOrder
import SceneCompiler.Proofs.Compile.Integers
import SceneCompiler.Proofs.Compile.LineEnds
import SceneCompiler.Proofs.Compile.Requests
import SceneCompiler.Proofs.Compile.Restoration
import SceneCompiler.Proofs.Compile.Reuse
import SceneCompiler.Proofs.Compile.Values
import SceneCompiler.Proofs.Document.Course
import SceneCompiler.Proofs.Document.Reporting
import SceneCompiler.Proofs.Factory.Controllers
import SceneCompiler.Proofs.Files.Listing
import SceneCompiler.Proofs.Merge.Ancestry
import SceneCompiler.Proofs.Merge.Keying
import SceneCompiler.Proofs.Merge.Referencers
import SceneCompiler.Proofs.Merge.Refinement
import SceneCompiler.Proofs.Number.ExponentLiterals
import SceneCompiler.Proofs.Resolver.Memo
import SceneCompiler.Proofs.Scene.Rearrangement
import SceneCompiler.Proofs.Sketch.Drawing
