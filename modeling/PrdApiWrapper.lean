import PrdApiWrapper.Admission
import PrdApiWrapper.JobRun
import PrdApiWrapper.OpenCircuit
import PrdApiWrapper.JobLifecycle
import PrdApiWrapper.Metering
import PrdApiWrapper.Quota
import PrdApiWrapper.Outage
import PrdApiWrapper.ConnectionPool
import PrdApiWrapper.JobPrivacy
import PrdApiWrapper.Refusals
import PrdApiWrapper.Budget
import PrdApiWrapper.Signing
import PrdApiWrapper.Delivery
import PrdApiWrapper.Channels
import PrdApiWrapper.RowLock
import PrdApiWrapper.ApiKeys
import PrdApiWrapper.Columns
import PrdApiWrapper.Tracing
import PrdApiWrapper.Advice
import PrdApiWrapper.WallClock
import PrdApiWrapper.Forecast
import PrdApiWrapper.Grammar
import PrdApiWrapper.RequestIds
import PrdApiWrapper.CoolOff
import PrdApiWrapper.Accounting
import PrdApiWrapper.Authentication
import PrdApiWrapper.Indifference
import PrdApiWrapper.Confidential
import PrdApiWrapper.Effort
import PrdApiWrapper.Conversation
import PrdApiWrapper.Provenance
import PrdApiWrapper.Authorisation
import PrdApiWrapper.Polling
import PrdApiWrapper.Allowance
import PrdApiWrapper.Settlement
import PrdApiWrapper.Doubles
import PrdApiWrapper.Billing
import PrdApiWrapper.Migrations
import PrdApiWrapper.FailFast
import PrdApiWrapper.Workers
import PrdApiWrapper.Rounded
import PrdApiWrapper.Presumed
