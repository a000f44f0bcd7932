import VerseSearch.Corpus.Basic
import VerseSearch.Corpus.Decode
import VerseSearch.Corpus.Library
import VerseSearch.Emphasis
import VerseSearch.Fault
import VerseSearch.Json.Token
import VerseSearch.Json.Value
import VerseSearch.Layer
import VerseSearch.Letters.Cleanup
import VerseSearch.Letters.Family
import VerseSearch.Letters.Source
import VerseSearch.Letters.Token
import VerseSearch.Marks.Source
import VerseSearch.Numeral
import VerseSearch.Pager
import VerseSearch.Pattern
import VerseSearch.Proofs.Answers
import VerseSearch.Proofs.Appending
import VerseSearch.Proofs.Availability
import VerseSearch.Proofs.Backslashes
import VerseSearch.Proofs.BareText
import VerseSearch.Proofs.Cleaning
import VerseSearch.Proofs.Company
import VerseSearch.Proofs.Complete
import VerseSearch.Proofs.Course
import VerseSearch.Proofs.Covering
import VerseSearch.Proofs.EmphasizedSpans
import VerseSearch.Proofs.Encodings
import VerseSearch.Proofs.Exactness
import VerseSearch.Proofs.Exhaustion
import VerseSearch.Proofs.Explanations
import VerseSearch.Proofs.Finding
import VerseSearch.Proofs.Generalizing
import VerseSearch.Proofs.GroupTexts
import VerseSearch.Proofs.Grouping
import VerseSearch.Proofs.Growth
import VerseSearch.Proofs.HamzaSeats
import VerseSearch.Proofs.Holdings
import VerseSearch.Proofs.LargeQueries
import VerseSearch.Proofs.LastInput
import VerseSearch.Proofs.LetterMatches
import VerseSearch.Proofs.LetterWeight
import VerseSearch.Proofs.Lossless
import VerseSearch.Proofs.MarkGroups
import VerseSearch.Proofs.MarkMatches
import VerseSearch.Proofs.MarkOrder
import VerseSearch.Proofs.MarkTries
import VerseSearch.Proofs.MarkUnits
import VerseSearch.Proofs.MarkVerses
import VerseSearch.Proofs.Narrowing
import VerseSearch.Proofs.NumeralValues
import VerseSearch.Proofs.Occurrences
import VerseSearch.Proofs.PageBar
import VerseSearch.Proofs.Paging
import VerseSearch.Proofs.QuestionMarks
import VerseSearch.Proofs.Reading
import VerseSearch.Proofs.Recency
import VerseSearch.Proofs.References
import VerseSearch.Proofs.Remainders
import VerseSearch.Proofs.Renumbering
import VerseSearch.Proofs.Scanning
import VerseSearch.Proofs.SessionView
import VerseSearch.Proofs.Spans
import VerseSearch.Proofs.Spellings
import VerseSearch.Proofs.SurplusParts
import VerseSearch.Proofs.TokenLayout
import VerseSearch.Proofs.Transparency
import VerseSearch.Proofs.Tries
import VerseSearch.Proofs.TypedReferences
import VerseSearch.Proofs.Unchanged
import VerseSearch.Proofs.Validation
import VerseSearch.Proofs.ValueLayout
import VerseSearch.Proofs.Visit
import VerseSearch.Proofs.Vocatives
import VerseSearch.Proofs.WordBounds
import VerseSearch.Proofs.WordStart
import VerseSearch.Proofs.Words
import VerseSearch.Query
import VerseSearch.Regex.CharSet
import VerseSearch.Regex.Explore
import VerseSearch.Regex.FirstWay
import VerseSearch.Regex.OpenSet
import VerseSearch.Regex.Pieces
import VerseSearch.Regex.Place
import VerseSearch.Regex.PlaceSet
import VerseSearch.Regex.Reader
import VerseSearch.Regex.Route
import VerseSearch.Regex.Sweep
import VerseSearch.Regex.Syntax
import VerseSearch.Regex.Ways
import VerseSearch.Regex.Weight
import VerseSearch.Search.Find
import VerseSearch.Search.Recent
import VerseSearch.Search.Results
import VerseSearch.Service.Basic
import VerseSearch.Service.Page
import VerseSearch.Service.Session
import VerseSearch.Settings.Decode
import VerseSearch.Settings.Environment
import VerseSearch.Text.Blank
import VerseSearch.Text.Path
import VerseSearch.Text.Replace
import VerseSearch.Text.Split
import VerseSearch.Text.Unseen
import VerseSearch.Text.Utf8
import VerseSearch.Web.QueryString
import VerseSearch.Web.Requests
