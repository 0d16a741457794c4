import SourceAudit.Text
import SourceAudit.Regex
import SourceAudit.Regex.Semantics
import SourceAudit.Chain
import SourceAudit.Corpus
import SourceAudit.Grouping
import SourceAudit.Traits.Extract
import SourceAudit.Traits.Members
import SourceAudit.Traits.Classify
import SourceAudit.Traits.Header
import SourceAudit.Traits.Usage
import SourceAudit.Traits.Profile
import SourceAudit.Traits.Reported
import SourceAudit.Traits.Report
import SourceAudit.ArcMutex.Extract
import SourceAudit.ArcMutex.Severity
import SourceAudit.ArcMutex.ReadHeavy
import SourceAudit.ArcMutex.Report
import SourceAudit.Comprehensive
import SourceAudit.Comprehensive.Ledgers
import SourceAudit.Comprehensive.MustUse
import SourceAudit.Comprehensive.PublicApi
import SourceAudit.Robustness
import SourceAudit.Comprehensive.Report
