import PsqlOdbc.Multibyte
import PsqlOdbc.EncodedStr
import PsqlOdbc.Convert.QueryBuild
import PsqlOdbc.Server.Literal
import PsqlOdbc.Convert.SpecialChars
import PsqlOdbc.Convert.LiteralSafety
import PsqlOdbc.Lib.Select
import PsqlOdbc.Lib.Bits
import PsqlOdbc.WinUnicode
import PsqlOdbc.WinUnicodeRoundTrip
import PsqlOdbc.Results.QResult
import PsqlOdbc.Results.GetNthValid
import PsqlOdbc.Results.NthValid
import PsqlOdbc.Results.NthValidPaths
import PsqlOdbc.Lib.InPlace
import PsqlOdbc.Lib.Doubling
import PsqlOdbc.Results.SideTables
import PsqlOdbc.Results.TableRows
import PsqlOdbc.Results.TableRemoval
import PsqlOdbc.Results.TableGrowth
import PsqlOdbc.Results.DeletedRows
import PsqlOdbc.Results.UpdatedRows
import PsqlOdbc.Lib.Outcome
import PsqlOdbc.Results.ReloadNeeded
import PsqlOdbc.Results.LoadedRows
import PsqlOdbc.Results.ReloadedRows
import PsqlOdbc.Lib.CString
import PsqlOdbc.Drvconn
import PsqlOdbc.DrvconnSplit
import PsqlOdbc.DrvconnItems
import PsqlOdbc.Statement.ScanQuery
import PsqlOdbc.Statement.ScannersAgree
import PsqlOdbc.Server.Lexer
import PsqlOdbc.Convert.LexersAgree
import PsqlOdbc.Convert.Markers
import PsqlOdbc.Lib.Radix
import PsqlOdbc.Convert.Numeric
import PsqlOdbc.Convert.NumericText
import PsqlOdbc.Convert.Identity
import PsqlOdbc.Convert.TokenCases
import PsqlOdbc.Convert.Unchanged
import PsqlOdbc.Convert.Escape
import PsqlOdbc.Convert.EscapeLiteral
import PsqlOdbc.Statement.ExtendedParams
import PsqlOdbc.Statement.ParamsLineUp
import PsqlOdbc.Statement.BatchExecute
import PsqlOdbc.Statement.BatchSent
import PsqlOdbc.Statement.ParamStatus
import PsqlOdbc.Statement.ParamStatusLoop
import PsqlOdbc.Statement.ParamStatusRight
import PsqlOdbc.Statement.DataAtExec
import PsqlOdbc.Statement.DataAtExecRuns
import PsqlOdbc.Statement.DataAtExecDialogue
import PsqlOdbc.Statement.InsertedTable
import PsqlOdbc.Convert.EscapeArguments
import PsqlOdbc.Convert.EscapeFunction
import PsqlOdbc.Lib.LineEnds
import PsqlOdbc.Convert.Linefeeds
import PsqlOdbc.Lib.CountingBuffer
import PsqlOdbc.WinUnicodeBuffer
import PsqlOdbc.Lib.Utf8
import PsqlOdbc.WinUnicodeValid
import PsqlOdbc.WinUnicodeSurrogates
import PsqlOdbc.WinUnicodeUcs4
import PsqlOdbc.WinUnicodeC16
import PsqlOdbc.WinUnicodeLinefeeds
import PsqlOdbc.Convert.Pgbinary
import PsqlOdbc.Lib.Strtol
import PsqlOdbc.SecureSscanf
import PsqlOdbc.SscanfStored
import PsqlOdbc.Lib.HexText
import PsqlOdbc.Lib.Strtof
import PsqlOdbc.Convert.Guid
import PsqlOdbc.Convert.Timestamp
import PsqlOdbc.Convert.Interval
import PsqlOdbc.Convert.IntervalText
import PsqlOdbc.Convert.Identifiers
import PsqlOdbc.SscanfConversions
import PsqlOdbc.SscanfRuns
import PsqlOdbc.Lib.Stores
import PsqlOdbc.ClientEncoding
import PsqlOdbc.DlgSpecific
import PsqlOdbc.Convert.Money
import PsqlOdbc.Statement.PutDataRight
import PsqlOdbc.ExtraOptionsRight
import PsqlOdbc.ErrorInfoRight
import PsqlOdbc.Catalog.LikePatternRight
import PsqlOdbc.ConnInfoCopy
import PsqlOdbc.Statement.FieldExpansionRight
import PsqlOdbc.CommentSettingsRight
import PsqlOdbc.DiagRecWRight
import PsqlOdbc.Statement.ColInfoRight
import PsqlOdbc.DiagFieldRight
import PsqlOdbc.Catalog.ColumnMetadata
import PsqlOdbc.DescRecRight
import PsqlOdbc.Catalog.TableTypes
import PsqlOdbc.Results.BulkOperationsRight
import PsqlOdbc.Catalog.Columns
import PsqlOdbc.Catalog.ProcedureColumnsRight
import PsqlOdbc.Catalog.TablePrivilegesRight
import PsqlOdbc.ConnectAttr
import PsqlOdbc.Xa.XidText
import PsqlOdbc.Xa.Recover
import PsqlOdbc.DescLife
import PsqlOdbc.DiscardMarked
import PsqlOdbc.Lib.Heap
import PsqlOdbc.DescCopy
import PsqlOdbc.DescCopyFields
import PsqlOdbc.DescCopyRight
import PsqlOdbc.DrvconnPairs
import PsqlOdbc.Xa.XaInfo
import PsqlOdbc.Xa.XaInfoRight
import PsqlOdbc.Xa.ConnectString
import PsqlOdbc.Lib.Linked
import PsqlOdbc.Results.ResultListRight
import PsqlOdbc.ConnTable
import PsqlOdbc.Convert.Bin2Hex
import PsqlOdbc.Results.Bookmark
import PsqlOdbc.WideTextRight
import PsqlOdbc.Results.ScrollFetch
import PsqlOdbc.Results.GetDataRuns
