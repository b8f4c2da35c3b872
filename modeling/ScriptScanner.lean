import ScriptScanner.Feed
import ScriptScanner.Token.Host
import ScriptScanner.Tokenization
import ScriptScanner.Proofs.Feed.Holds
import ScriptScanner.Proofs.Feed.Tape
import ScriptScanner.Proofs.Feed.Representation
import ScriptScanner.Proofs.Feed.Recall
import ScriptScanner.Proofs.Feed.History
import ScriptScanner.Proofs.Feed.Rejection
import ScriptScanner.Proofs.Locations
import ScriptScanner.Proofs.Tokenization.LineBreaks
import ScriptScanner.Proofs.Tokenization.Respelling
import ScriptScanner.Proofs.Feed.Drain
import ScriptScanner.Proofs.Feed.Slots
import ScriptScanner.Proofs.Feed.PutBack
import ScriptScanner.Proofs.Feed.Peek
import ScriptScanner.Proofs.Feed.WithinLine
import ScriptScanner.Proofs.TriviaEnd
import ScriptScanner.Proofs.Failures
import ScriptScanner.Proofs.Tokenization.Joining
import ScriptScanner.Proofs.Tokenization.Slashes
import ScriptScanner.Proofs.Tokenization.TwoRules
import ScriptScanner.Proofs.Lexeme.Digits
import ScriptScanner.Proofs.Lexeme.Longest
import ScriptScanner.Proofs.Lexeme.RegExpBody
import ScriptScanner.Proofs.Lexeme.Integer
import ScriptScanner.Proofs.Lexeme.LongestNumeral
import ScriptScanner.Proofs.Lexeme.StringEnd
import ScriptScanner.Proofs.Lexeme.StringPieces
import ScriptScanner.Proofs.Feed.Watched
import ScriptScanner.Proofs.Tokenization.Watched
import ScriptScanner.Proofs.Feed.Demand
import ScriptScanner.Proofs.RawText
import ScriptScanner.Proofs.Advance
import ScriptScanner.Proofs.Wording
