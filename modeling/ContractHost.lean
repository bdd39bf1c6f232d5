import ContractHost.Action
import ContractHost.Address
import ContractHost.Amount
import ContractHost.Arguments
import ContractHost.Bytes
import ContractHost.CallStack
import ContractHost.Command
import ContractHost.Config
import ContractHost.Config.File
import ContractHost.Digest
import ContractHost.FormatError
import ContractHost.Frame
import ContractHost.FrameRecord
import ContractHost.Gas
import ContractHost.Gas.Meter
import ContractHost.Host
import ContractHost.HostError
import ContractHost.Ledger
import ContractHost.Ledger.Snapshot
import ContractHost.Order
import ContractHost.OrderedMap
import ContractHost.Overlay
import ContractHost.Program
import ContractHost.Radix
import ContractHost.Report
import ContractHost.Request
import ContractHost.ResultTree
import ContractHost.Scope
import ContractHost.Script
import ContractHost.Script.Session
import ContractHost.Script.Source
import ContractHost.Text.Bech32
import ContractHost.Text.Json
import ContractHost.Text.Json.Reader
import ContractHost.Text.Json.Record
import ContractHost.Text.Json.Values
import ContractHost.Text.Toml
import ContractHost.Text.Toml.Reader
import ContractHost.Tree
import ContractHost.Wire.Error
import ContractHost.Wire.Reader
import ContractHost.Wire.Records
import ContractHost.World
import ContractHost.Proofs.MapFold
import ContractHost.Proofs.Flattening
import ContractHost.Proofs.FrameSteps
import ContractHost.Proofs.Simulation
import ContractHost.Proofs.Refinement
import ContractHost.Proofs.LedgerRuns
import ContractHost.Proofs.Atomicity
import ContractHost.Proofs.Metering
import ContractHost.Proofs.GasBounds
import ContractHost.Proofs.FrameEnds
import ContractHost.Proofs.Conservation
import ContractHost.Proofs.Footprint
import ContractHost.Proofs.CallStacks
import ContractHost.Proofs.Nesting
import ContractHost.Proofs.WireFields
import ContractHost.Proofs.Amounts
import ContractHost.Proofs.ResultCodec
import ContractHost.Proofs.Trees
import ContractHost.Proofs.ReadableResults
import ContractHost.Proofs.Bech32Texts
import ContractHost.Proofs.HexTexts
import ContractHost.Proofs.JsonTexts
import ContractHost.Proofs.JsonRecords
import ContractHost.Proofs.Snapshots
import ContractHost.Proofs.SavedLedgers
import ContractHost.Proofs.OrderHistories
import ContractHost.Proofs.DeploymentAddresses
import ContractHost.Proofs.CodeOrigins
import ContractHost.Proofs.CallableContracts
import ContractHost.Proofs.FaithfulRecords
import ContractHost.Proofs.LegibleResults
import ContractHost.Proofs.NormalForms
import ContractHost.Proofs.StepMachine
import ContractHost.Proofs.ScriptSessions
import ContractHost.Proofs.PaidCommands
import ContractHost.Proofs.Upshots
import ContractHost.Proofs.Termination
import ContractHost.Proofs.Budgets
import ContractHost.Proofs.GasSufficiency
import ContractHost.Proofs.WriteLimits
import ContractHost.Proofs.StackConsistency
import ContractHost.Proofs.InsertionOrder
import ContractHost.Proofs.NestedReplies
import ContractHost.Proofs.ArglessRecords
import ContractHost.Proofs.KeptArguments
import ContractHost.Proofs.FailedRequests
import ContractHost.Proofs.OutrunFrames
import ContractHost.Proofs.ScriptAccounts
import ContractHost.Proofs.ScriptExpenses
import ContractHost.Proofs.ExactGas
import ContractHost.Proofs.PackedArguments
import ContractHost.Proofs.OverlayStacks
import ContractHost.Proofs.MeterHistories
import ContractHost.Proofs.AddressTexts
import ContractHost.Proofs.AddressSpellings
import ContractHost.Proofs.AmountForms
import ContractHost.Proofs.OverlayMerges
import ContractHost.Proofs.ReportedOutcomes
import ContractHost.Proofs.ScriptSections
import ContractHost.Proofs.TomlTexts
import ContractHost.Proofs.TomlValues
import ContractHost.Proofs.TomlDocuments
import ContractHost.Proofs.ConfigFiles
