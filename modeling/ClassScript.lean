import ClassScript.Main
import ClassScript.Proofs.Reading.Program
import ClassScript.Proofs.Renaming.Session
import ClassScript.Proofs.Session.Dispatch
import ClassScript.Proofs.Session.Failure
import ClassScript.Proofs.Session.Returns
import ClassScript.Proofs.Session.Splitting
import ClassScript.Proofs.Evaluation.Finishing
import ClassScript.Proofs.Session.Containment
import ClassScript.Proofs.Outline.Form
import ClassScript.Proofs.Session.Layout
import ClassScript.Proofs.Source.Lexemes
import ClassScript.Proofs.Outline.Written
import ClassScript.Proofs.Outline.Agreement
import ClassScript.Proofs.Braces.Basic
import ClassScript.Proofs.Braces.Nesting
import ClassScript.Proofs.Braces.Store
import ClassScript.Proofs.Braces.World
import ClassScript.Proofs.Braces.Machine
import ClassScript.Proofs.Braces.Steps
import ClassScript.Proofs.Braces.Session
import ClassScript.Proofs.Evaluation.Grounding
import ClassScript.Proofs.Evaluation.Leading
import ClassScript.Proofs.Session.Record
import ClassScript.Proofs.Session.Globals
import ClassScript.Proofs.Session.Links
import ClassScript.Proofs.Evaluation.Output
import ClassScript.Proofs.Evaluation.Printing
import ClassScript.Proofs.Session.Flags
import ClassScript.Proofs.Session.Truncation
import ClassScript.Proofs.Tree.Places
import ClassScript.Proofs.Scoping.Lexical
import ClassScript.Proofs.Scoping.Survey
import ClassScript.Proofs.Scoping.Violations
import ClassScript.Proofs.Scoping.Distances
import ClassScript.Proofs.Source.LexicalGrammar
import ClassScript.Proofs.Source.LongestMatch
import ClassScript.Proofs.Source.Spans
import ClassScript.Proofs.Source.Separation
import ClassScript.Proofs.Scanning.Agreement
import ClassScript.Proofs.Rules.Respect
import ClassScript.Proofs.Reading.Independence
import ClassScript.Proofs.Reading.Concatenation
import ClassScript.Proofs.Reading.Recovery
import ClassScript.Proofs.Walking.Agreement
import ClassScript.Proofs.Store.Distances
import ClassScript.Proofs.Session.Identities
import ClassScript.Proofs.Number.ReadBack
